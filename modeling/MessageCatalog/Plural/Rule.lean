import MessageCatalog.Catalog.Metadata
import MessageCatalog.Log
import MessageCatalog.Plural.Expr.Parser
import MessageCatalog.Text.Utf8

set_option autoImplicit false

/-! # Plural rules

A plural rule is an expression together with the number of forms that its catalog declares. It
sends a number to the index of a form, and `pick` takes the form with that index out of the forms
that an entry stores side by side.

A catalog without a rule, or with one that cannot be read, has the rule of the Germanic languages:
one form for the number one and one for all others.
-/

namespace MessageCatalog.Plural

/-- An expression that chooses a form, and the declared number of forms. The number is not
enforced: an index is whatever the expression gives. -/
structure Rule where
  expr : Expr
  count : Nat
  deriving Repr, DecidableEq

/-- The form number `index` of forms separated by NULs; nothing if there are not that many. -/
def formAt : Nat → Bytes → Bytes
  | 0, forms => Bytes.beforeNul forms
  | index + 1, forms =>
      match forms.dropWhile (· != 0) with
      | [] => []
      | _ :: rest => formAt index rest

/-- The form that an index selects. A negative index selects the first form. -/
def pick (forms : Bytes) (index : Int32) : Bytes := formAt index.toInt.toNat forms

namespace Rule

/-- The rule of a catalog that gives none: two forms, the second for every number but one. -/
def default : Rule := ⟨.binary .ne .number (.literal 1), 2⟩

/-- The rule with the given expression. -/
def parse (text : Bytes) (count : Nat) : Except Marker Rule :=
  (Plural.parse text).map fun e => ⟨e, count⟩

/-- The index of the form for a number. -/
def index (r : Rule) (n : Int32) : Int32 := r.expr.eval n

/-- The form for a number. -/
def select (r : Rule) (n : Int32) (forms : Bytes) : Bytes := pick forms (r.index n)

/-- The rule that the metadata of a catalog gives. If it gives none this is the default rule, and
so it is, with a remark, if the expression cannot be read. -/
def ofMetadata (metadata : Bytes) : Logged Rule :=
  match Metadata.pluralExpression? metadata with
  | none => pure default
  | some text =>
      match parse text ((Metadata.pluralCount? metadata).getD default.count) with
      | .ok rule => pure rule
      | .error m => do
          Logged.remark .debug ("falling back to the default plural rule:\n" ++
            m.error.diagnostic "Plural-Forms" (Utf8.lossy text))
          pure default

end Rule

end MessageCatalog.Plural
