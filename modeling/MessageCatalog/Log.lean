set_option autoImplicit false

/-! # Logged results

Some results come with remarks for whoever runs the program: a catalog was loaded, a rule was
replaced by the default one, a message was defined twice. `Logged α` is a result with the remarks
made on the way to it, oldest first.
-/

namespace MessageCatalog

/-- How much a remark matters. -/
inductive Severity
  | error | warning | info | debug | trace
  deriving Repr, DecidableEq

/-- A remark. -/
structure LogEntry where
  severity : Severity
  message : String
  deriving Repr, DecidableEq

/-- A result and the remarks made on the way to it. -/
structure Logged (α : Type) where
  value : α
  log : List LogEntry := []
  deriving Repr

namespace Logged

instance : Monad Logged where
  pure a := ⟨a, []⟩
  bind x f := ⟨(f x.value).value, x.log ++ (f x.value).log⟩

/-- A remark without a result. -/
def remark (severity : Severity) (message : String) : Logged Unit := ⟨(), [⟨severity, message⟩]⟩

variable {α β : Type}

@[simp] theorem value_pure (a : α) : (pure a : Logged α).value = a := rfl

@[simp] theorem log_pure (a : α) : (pure a : Logged α).log = [] := rfl

@[simp] theorem value_bind (x : Logged α) (f : α → Logged β) :
    (x >>= f).value = (f x.value).value := rfl

@[simp] theorem log_bind (x : Logged α) (f : α → Logged β) :
    (x >>= f).log = x.log ++ (f x.value).log := rfl

end Logged

end MessageCatalog
