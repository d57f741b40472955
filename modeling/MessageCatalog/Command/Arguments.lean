import MessageCatalog.Decimal

set_option autoImplicit false

/-! # Reading argument lists

Arguments are options and positionals. An option has a long name, perhaps a letter, and perhaps a
value. The value is attached to the name by an equals sign, attached to the letter directly or by
an equals sign, or it is the next argument. Letters of options without a value may be combined.
After a double dash everything is a positional.

`scan` takes an argument list apart by a list of options and positionals; what it finds is checked
by `Found.flag?`, `Found.value?` and `Found.values`.
-/

namespace MessageCatalog.Command

/-- An option. -/
structure OptionSpec where
  name : String
  letter : Option Char := none
  takesValue : Bool := false
  /-- The value may start with a dash. -/
  dashedValue : Bool := false
  /-- The option may be given more than once. -/
  repeatable : Bool := false
  deriving Repr, DecidableEq

/-- A positional. -/
structure PositionalSpec where
  name : String
  /-- The value may look like letters of options. -/
  dashedValue : Bool := false
  deriving Repr, DecidableEq

/-- The options and positionals of a command. -/
structure ArgumentSpec where
  options : List OptionSpec
  positionals : List PositionalSpec := []
  deriving Repr, DecidableEq

/-- An option that was given, with its value unless it has none or ends the list too early. -/
structure Occurrence where
  option : OptionSpec
  value : Option String := none
  deriving Repr, DecidableEq

/-- What an argument list holds. -/
structure Found where
  occurrences : List Occurrence := []
  positionals : List String := []
  deriving Repr, DecidableEq

namespace ArgumentSpec

/-- The option with a name. -/
def named? (a : ArgumentSpec) (name : List Char) : Option OptionSpec :=
  a.options.find? fun o => o.name.toList == name

/-- The option with a letter. -/
def lettered? (a : ArgumentSpec) (letter : Char) : Option OptionSpec :=
  a.options.find? fun o => o.letter == some letter

end ArgumentSpec

/-- A half-read argument list: what was found, the option that waits for its value, and whether a
double dash was met. -/
structure Scan where
  found : Found := {}
  waiting : Option OptionSpec := none
  trailing : Bool := false
  deriving Repr, DecidableEq

namespace Scan

/-- Gives up waiting for a value. -/
def settle (s : Scan) : Scan :=
  match s.waiting with
  | none => s
  | some o =>
      { s with
        found.occurrences := s.found.occurrences ++ [⟨o, none⟩]
        waiting := none }

/-- With an option that was given. -/
def occur (s : Scan) (o : OptionSpec) (value : Option String) : Scan :=
  let s := s.settle
  { s with found.occurrences := s.found.occurrences ++ [⟨o, value⟩] }

/-- With an option that waits for its value. -/
def await (s : Scan) (o : OptionSpec) : Scan := { s.settle with waiting := some o }

/-- With a positional, if the command has one more. -/
def positional? (s : Scan) (a : ArgumentSpec) (value : String) : Option Scan :=
  let s := s.settle
  if s.found.positionals.length < a.positionals.length then
    some { s with found.positionals := s.found.positionals ++ [value] }
  else none

/-- With the value that an option waits for, or with a positional. -/
def value? (s : Scan) (a : ArgumentSpec) (value : String) : Option Scan :=
  match s.waiting with
  | some o =>
      some { s with
        found.occurrences := s.found.occurrences ++ [⟨o, some value⟩]
        waiting := none }
  | none => s.positional? a value

/-- Reads a long option, without its dashes. -/
def long? (s : Scan) (a : ArgumentSpec) (text : List Char) : Option Scan :=
  let name := text.takeWhile (· != '=')
  match a.named? name, text.drop name.length with
  | none, _ => none
  | some o, [] => if o.takesValue then some (s.await o) else some (s.occur o none)
  | some o, _ :: value =>
      if o.takesValue then some (s.occur o (some (String.ofList value))) else none

/-- Reads combined letters, without their dash. -/
def letters? (a : ArgumentSpec) : Scan → List Char → Option Scan
  | s, [] => some s
  | s, letter :: rest =>
      match a.lettered? letter with
      | none => none
      | some o =>
          if !o.takesValue then letters? a (s.occur o none) rest
          else match rest with
            | [] => some (s.await o)
            | '=' :: value => some (s.occur o (some (String.ofList value)))
            | value => some (s.occur o (some (String.ofList value)))

/-- The option that waits takes a value with a dash. -/
def awaitsDashed (s : Scan) : Bool := s.waiting.any (·.dashedValue)

/-- The next positional takes a value that looks like letters of options. -/
def positionalDashed (s : Scan) (a : ArgumentSpec) : Bool :=
  (a.positionals[s.found.positionals.length]?).any (·.dashedValue)

/-- Reads one argument. -/
def step? (a : ArgumentSpec) (s : Scan) (argument : String) : Option Scan :=
  if s.trailing then s.positional? a argument
  -- An argument with a dash is an option, unless what waits for a value takes it as it is.
  else match argument.toList with
    | '-' :: '-' :: [] =>
        if s.awaitsDashed then s.value? a argument else some { s with trailing := true }
    | '-' :: '-' :: text =>
        if s.awaitsDashed then s.value? a argument else s.long? a text
    | '-' :: letter :: rest =>
        if s.awaitsDashed || s.positionalDashed a then s.value? a argument
        else s.letters? a (letter :: rest)
    | _ => s.value? a argument

end Scan

/-- Takes an argument list apart. There is no answer if an argument fits nowhere. -/
def scan (a : ArgumentSpec) (arguments : List String) : Option Found :=
  (arguments.foldlM (Scan.step? a) {}).map fun s => s.settle.found

namespace Found

/-- The values of an option, if it was given as often as it may be and has a value at all. -/
def acceptable (f : Found) (o : OptionSpec) : Bool :=
  let given := f.occurrences.filter fun x => x.option == o
  (given.length ≤ 1 || o.repeatable) &&
    (given.isEmpty || !o.takesValue || given.any fun x => x.value.isSome)

/-- All options of a command were given in an acceptable way. -/
def check (f : Found) (a : ArgumentSpec) : Bool := a.options.all f.acceptable

/-- The option was given. -/
def has (f : Found) (name : String) : Bool := f.occurrences.any fun x => x.option.name == name

/-- The values that were given to an option. -/
def values (f : Found) (name : String) : List String :=
  f.occurrences.filterMap fun x => if x.option.name == name then x.value else none

/-- The value that was given to an option. -/
def value? (f : Found) (name : String) : Option String := (f.values name).head?

end Found

/-! ## Numbers -/

/-- A number in decimal digits, with or without a plus sign; the limit if the number is larger. -/
def natural? (limit : Nat) (text : String) : Option Nat :=
  let digits := match text.toList with
    | '+' :: rest => rest
    | all => all
  if digits.isEmpty || !digits.all Char.isDigit then none
  else some (Decimal.valueUpTo limit (digits.map fun d => d.toNat - 48))

/-- A number in decimal digits, with or without a sign, counted up to the limit on either side of
zero. -/
def integer? (limit : Nat) (text : String) : Option Int :=
  match text.toList with
  | '-' :: digits =>
      if digits.head? = some '+' then none
      else (natural? limit (String.ofList digits)).map fun n => -(n : Int)
  | _ => (natural? limit text).map fun n => (n : Int)

/-- A number of 32 bits. -/
def int32? (text : String) : Option Int32 :=
  (integer? UInt32.size text).bind fun n =>
    if Int32.minValue.toInt ≤ n && n ≤ Int32.maxValue.toInt then some (Int32.ofInt n) else none

/-- A number of bytes, which has 64 bits. -/
def byteCount? (text : String) : Option Nat :=
  (natural? UInt64.size text).bind fun n => if n < UInt64.size then some n else none

end MessageCatalog.Command
