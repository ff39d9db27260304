import SearchCompiler.Text.Blank
import SearchCompiler.Text.Case

/-! # Kinds of clauses

The nine kinds of clauses of a search request, and the four lists of a boolean group. -/

namespace SearchCompiler

/-- **The kind of a clause.** -/
inductive ClauseKind where
  | bool
  | term
  | terms
  /-- A search for the words of a text. -/
  | fullText
  | range
  | sort
  | aggs
  | highlight
  | request
  deriving DecidableEq, Repr

namespace ClauseKind

def all : List ClauseKind := [bool, term, terms, fullText, range, sort, aggs, highlight, request]

theorem mem_all (k : ClauseKind) : k ∈ all := by cases k <;> decide

/-- The name of a kind, for a query also the key of its document. -/
def name : ClauseKind → String
  | bool => "bool"
  | term => "term"
  | terms => "terms"
  | fullText => "match"
  | range => "range"
  | sort => "sort"
  | aggs => "aggs"
  | highlight => "highlight"
  | request => "dsl"

/-- The name in messages, which call a request by that word. -/
def label : ClauseKind → String
  | request => "request"
  | k => k.name

/-- Reads the name of a kind in any case, with blanks around it. A request has two names. -/
def read? (s : String) : Option ClauseKind :=
  let name := Text.asciiLower (Text.trim s)
  if name = "request" then some request else all.find? fun k => k.name == name

end ClauseKind

/-- **The lists of a boolean group.** -/
inductive Occur where
  | must
  | mustNot
  | should
  | filter
  deriving DecidableEq, Repr

namespace Occur

def all : List Occur := [must, mustNot, should, filter]

theorem mem_all (o : Occur) : o ∈ all := by cases o <;> decide

/-- The key of a list. -/
def key : Occur → String
  | must => "must"
  | mustNot => "must_not"
  | should => "should"
  | filter => "filter"

/-- The list under a key. -/
def ofKey? (k : String) : Option Occur := all.find? fun o => o.key == k

theorem ofKey?_key (o : Occur) : ofKey? o.key = some o := by cases o <;> decide

theorem key_inj {a b : Occur} (h : a.key = b.key) : a = b := by
  cases a <;> cases b <;> first | rfl | exact absurd h (by decide)

end Occur

end SearchCompiler
