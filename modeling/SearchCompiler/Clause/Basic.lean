import SearchCompiler.Clause.BoolGroup
import SearchCompiler.Clause.Request
import SearchCompiler.Clause.Terms

/-! # Clauses -/

namespace SearchCompiler

/-- **A clause** of any kind. -/
inductive Clause where
  | bool (c : BoolGroup)
  | term (c : Term)
  | terms (c : Terms)
  | fullText (c : FullText)
  | range (c : Range)
  | sort (c : SortKey)
  | aggs (c : Aggs)
  | highlight (c : Highlight)
  | request (c : Request)

namespace Clause

def kind : Clause → ClauseKind
  | bool _ => .bool
  | term _ => .term
  | terms _ => .terms
  | fullText _ => .fullText
  | range _ => .range
  | sort _ => .sort
  | aggs _ => .aggs
  | highlight _ => .highlight
  | request _ => .request

/-- The parameters of a clause. -/
def params : Clause → Params
  | bool c => c.params
  | term c => c.params
  | terms c => c.params
  | fullText c => c.params
  | range c => c.params
  | sort c => c.params
  | aggs c => c.params
  | highlight c => c.params
  | request c => c.params

def version (c : Clause) : Version := c.params.version

/-- **The document of a clause.** -/
def document : Clause → Json
  | bool c => c.document
  | term c => c.document
  | terms c => c.document
  | fullText c => c.document
  | range c => c.document
  | sort c => c.document
  | aggs c => c.document
  | highlight c => c.document
  | request c => c.document

end Clause

end SearchCompiler
