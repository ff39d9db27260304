import SearchCompiler.Proofs.Time.Clock
import SearchCompiler.Zone.Basic

/-! # The next second of a zone

A second in the middle of a minute that goes on for longer than a second is shown as the next one. A
zone that gives both seconds the same offset places them one second apart. The moment is then shown
as the next second as well, unless it is the last of a minute in UTC: there, a second that goes on
is a leap second.

* `Zone.KeepsMinute`: the zones and times for which this is so.
* `Zone.KeepsMinute.localize?_settled`: what is placed, and then shown, is what is shown, and then
  placed. -/

namespace SearchCompiler

namespace Zone

variable {z : Zone} {t : DateTime}

/-- **Does a zone leave a second and the next one in one minute?** Both have the same offset, and
the first is not the last of a minute in UTC. -/
def KeepsMinute (z : Zone) (t : DateTime) : Prop :=
  z.offsetAt t.settled = z.offsetAt t ∧ ∀ o ∈ (z.offsetAt t).offsets, (t.seconds - o) % 60 ≠ 59

/-- Where both seconds have the same offsets of whole minutes, they are in one minute. -/
theorem keepsMinute_of_dvd (ht : ¬ t.IsClockTime) (hsame : z.offsetAt t.settled = z.offsetAt t)
    (hminutes : ∀ o ∈ (z.offsetAt t).offsets, 60 ∣ o) : z.KeepsMinute t := by
  have hminute := DateTime.emod_seconds_of_not_isClockTime ht
  refine ⟨hsame, fun o ho => ?_⟩
  have hdvd := hminutes o ho
  omega

/-- **A second that is too long** is placed, and then shown as the next one, or the next one is
placed. -/
theorem KeepsMinute.localize?_settled (h : z.KeepsMinute t) (ht : ¬ t.IsClockTime) :
    z.localize? t.settled = (z.localize? t).map DateTime.settled := by
  obtain ⟨hsame, hminute⟩ := h
  have hshift : ∀ o ∈ (z.offsetAt t).offsets,
      t.settled.shift? (-o) = (t.shift? (-o)).map DateTime.settled := fun o ho =>
    DateTime.shift?_settled_of_not_isClockTime ht (hminute o ho)
  rw [localize?, localize?, hsame]
  cases hz : z.offsetAt t with
  | skipped => rfl
  | once o => exact hshift o (by simp [hz, LocalOffset.offsets])
  | twice o o' =>
    have hfirst := hshift o (by simp [hz, LocalOffset.offsets])
    have hsecond := hshift o' (by simp [hz, LocalOffset.offsets])
    rw [LocalOffset.moment?, LocalOffset.moment?, hfirst, hsecond, Option.bind_map, Option.map_bind]
    rfl

end Zone

end SearchCompiler
