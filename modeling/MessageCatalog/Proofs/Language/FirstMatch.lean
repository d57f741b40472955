import Mathlib.Data.List.TakeWhile
import MessageCatalog.Language

set_option autoImplicit false

/-! # Choosing a language is a first match

The search for a preferred language goes through two lists, the languages and the names of each. It
is the same as a search through one list, the *candidates*: every language that has a name, each
followed by its base. The loader is called for the candidates one after another and may do with its
state what it likes in between. What comes of it is said by `FirstMatch`, and `select_firstMatch`
says that nothing else can come of a search: it ends at the first candidate that is the source
language or is loaded, and the loader is called for every candidate before and for none behind.
-/

namespace MessageCatalog.Language

variable {σ : Type} {source : String} {load : String → StateM σ Bool}

/-! ## Candidates -/

/-- A text stands in front of the first specifier of a language, or is the whole of it if there is
no specifier. -/
def IsInFront (front language : String) : Prop :=
  ∃ rest, language.toList = front.toList ++ rest ∧
    (∀ c ∈ front.toList, c ∉ ['-', '_', '.', '@']) ∧ ∀ c ∈ rest.head?, c ∈ ['-', '_', '.', '@']

theorem startsSpecifier_iff (c : Char) : startsSpecifier c = true ↔ c ∈ ['-', '_', '.', '@'] := by
  simp [startsSpecifier, or_assoc]

theorem isInFront_base (language : String) : IsInFront (base language) language := by
  refine ⟨language.toList.dropWhile fun c => !startsSpecifier c, ?_, ?_, ?_⟩
  · rw [base, String.toList_ofList, List.takeWhile_append_dropWhile]
  · intro c hc
    rw [base, String.toList_ofList] at hc
    rw [← startsSpecifier_iff]
    simpa using List.mem_takeWhile_imp hc
  · intro c hc
    have hend := List.head?_dropWhile_not (fun c => !startsSpecifier c) language.toList
    rw [Option.mem_def.1 hc] at hend
    rw [← startsSpecifier_iff]
    simpa using hend

/-- The languages that have a name, each followed by its base if that is another name. -/
def candidates (languages : List String) : List String :=
  (languages.filter (· ≠ "")).flatMap fun language =>
    if base language ≠ "" ∧ base language ≠ language then [language, base language]
    else [language]

theorem names_of_ne {language : String} (h : language ≠ "") :
    names language =
      if base language ≠ "" ∧ base language ≠ language then [language, base language]
      else [language] := by
  rw [names, if_neg (mt String.isEmpty_iff.1 h)]
  by_cases hbase : base language = language || (base language).isEmpty
  · rw [if_pos hbase, if_neg]
    rintro ⟨hempty, hsame⟩
    simp [hempty, hsame] at hbase
  · rw [if_neg hbase, if_pos]
    simpa [and_comm] using hbase

/-- The candidates are the names of the languages in order. -/
theorem flatMap_names (languages : List String) :
    languages.flatMap names = candidates languages := by
  induction languages with
  | nil => rfl
  | cons language rest ih =>
      rw [List.flatMap_cons, ih]
      by_cases h : language = ""
      · have hempty : names language = [] := by rw [names, if_pos (String.isEmpty_iff.2 h)]
        rw [hempty, candidates, candidates, List.filter_cons_of_neg (by simp [h])]
        rfl
      · have hfilter : (language :: rest).filter (· ≠ "") = language :: rest.filter (· ≠ "") :=
          List.filter_cons_of_pos (by simp [h])
        rw [names_of_ne h, candidates, candidates, hfilter, List.flatMap_cons]

/-! ## One list instead of two -/

section

variable {m : Type → Type} [Monad m] [LawfulMonad m]

theorem selectName_append (load : String → m Bool) (first second : List String) :
    selectName source load (first ++ second) =
      selectName source load first >>= fun outcome =>
        outcome.elim (selectName source load second) fun selection => pure (some selection) := by
  induction first with
  | nil => simp [selectName]
  | cons name rest ih =>
      rw [List.cons_append, selectName, selectName, ih]
      by_cases h : name = source
      · rw [if_pos h, if_pos h, pure_bind]
        rfl
      · rw [if_neg h, if_neg h, bind_assoc]
        refine bind_congr fun taken => ?_
        cases taken with
        | true => rw [if_pos rfl, if_pos rfl, pure_bind]; rfl
        | false => rfl

/-- A search through languages is a search through their names. -/
theorem select_eq (load : String → m Bool) (languages : List String) :
    select source load languages =
      (fun outcome => outcome.getD .unavailable) <$>
        selectName source load (languages.flatMap names) := by
  induction languages with
  | nil => simp [select, selectName]
  | cons language rest ih =>
      rw [select, List.flatMap_cons, selectName_append, ih, map_bind]
      refine bind_congr fun outcome => ?_
      cases outcome with
      | none => rfl
      | some selection => rw [Option.elim_some, map_pure, Option.getD_some]

end

/-! ## First match -/

/-- A loader that is called for some names, in this order, and takes none of them. -/
def Refuses (load : String → StateM σ Bool) (names : List String) (s s' : σ) : Prop :=
  (names.mapM load).run s = (List.replicate names.length false, s')

/-- The first match among candidates for a loader with some state: the names that it is called for,
what comes of it, and the state that it leaves. -/
inductive FirstMatch (source : String) (load : String → StateM σ Bool) (candidates : List String)
    (s : σ) : List String → Selection → σ → Prop
  /-- The source language comes up. The loader is not called for it. -/
  | source {front rest : List String} {s' : σ} (hsplit : candidates = front ++ source :: rest)
      (hfront : source ∉ front) (hrefused : Refuses load front s s') :
      FirstMatch source load candidates s front .source s'
  /-- A candidate is loaded. -/
  | translated {front rest : List String} {name : String} {s' s'' : σ}
      (hsplit : candidates = front ++ name :: rest) (hfront : source ∉ front ++ [name])
      (hrefused : Refuses load front s s') (htaken : (load name).run s' = (true, s'')) :
      FirstMatch source load candidates s (front ++ [name]) (.translated name) s''
  /-- The candidates are exhausted. -/
  | unavailable {s' : σ} (hfront : source ∉ candidates) (hrefused : Refuses load candidates s s') :
      FirstMatch source load candidates s candidates .unavailable s'

/-- A loader that keeps a record of the names that it is called for. -/
def recorded (load : String → StateM σ Bool) (name : String) : StateM (σ × List String) Bool :=
  fun (s, calls) =>
    let (taken, s') := load name s
    (taken, (s', calls ++ [name]))

/-- A call passes on the state that it leaves. -/
theorem run_bind_apply {α β : Type} (x : StateM σ α) (f : α → StateM σ β) (s : σ) :
    (x >>= f).run s = (f (x.run s).1).run (x.run s).2 := rfl

namespace Refuses

variable {name : String} {names : List String} {s s' s'' : σ}

theorem nil (s : σ) : Refuses load [] s s := rfl

theorem cons_iff : Refuses load (name :: names) s s'' ↔
    ∃ s', (load name).run s = (false, s') ∧ Refuses load names s' s'' := by
  rw [Refuses, List.mapM_cons, run_bind_apply, run_bind_apply]
  constructor
  · intro h
    obtain ⟨hanswers, hstate⟩ := Prod.mk.inj h
    obtain ⟨hfirst, hrest⟩ := List.cons.inj hanswers
    exact ⟨_, Prod.ext hfirst rfl, Prod.ext hrest hstate⟩
  · rintro ⟨s', hname, h⟩
    rw [hname, h]
    rfl

/-- Names that are refused make no difference but for the state. -/
theorem run_selectName (h : Refuses load names s s') (hsource : source ∉ names)
    (rest : List String) :
    (selectName source load (names ++ rest)).run s = (selectName source load rest).run s' := by
  induction names generalizing s with
  | nil => obtain ⟨-, rfl⟩ := Prod.mk.inj h; rfl
  | cons name names ih =>
      obtain ⟨hne, hsource⟩ := not_or.1 (mt List.mem_cons.2 hsource)
      obtain ⟨s₁, hname, hrest⟩ := cons_iff.1 h
      rw [List.cons_append, selectName, if_neg (Ne.symm hne), run_bind_apply, hname]
      exact ih hrest hsource

/-- The record of a loader that refuses some names are these names. -/
theorem recorded (h : Refuses load names s s') (calls : List String) :
    Refuses (recorded load) names (s, calls) (s', calls ++ names) := by
  induction names generalizing s calls with
  | nil =>
      obtain ⟨-, rfl⟩ := Prod.mk.inj h
      rw [List.append_nil]
      exact nil _
  | cons name names ih =>
      obtain ⟨s₁, hname, hrest⟩ := cons_iff.1 h
      refine cons_iff.2 ⟨(s₁, calls ++ [name]), ?_, ?_⟩
      · show ((load name s).1, _) = _
        rw [show load name s = (false, s₁) from hname]
      · have hrecord := ih hrest (calls ++ [name])
        rwa [List.append_assoc, List.singleton_append] at hrecord

end Refuses

namespace FirstMatch

variable {list tried : List String} {outcome : Selection} {s s' s'' : σ}

/-- A candidate that is refused comes before a first match among the rest. -/
theorem cons {name : String} (hname : name ≠ source) (hrefused : (load name).run s = (false, s'))
    (h : FirstMatch source load list s' tried outcome s'') :
    FirstMatch source load (name :: list) s (name :: tried) outcome s'' := by
  have hcons : ∀ {front : List String}, source ∉ front → source ∉ name :: front :=
    List.not_mem_cons_of_ne_of_not_mem (Ne.symm hname)
  have hrefuses : ∀ {front : List String} {s''}, Refuses load front s' s'' →
      Refuses load (name :: front) s s'' := fun hrest => Refuses.cons_iff.2 ⟨s', hrefused, hrest⟩
  cases h with
  | source hsplit hfront hrest =>
      exact .source (congrArg (name :: ·) hsplit) (hcons hfront) (hrefuses hrest)
  | translated hsplit hfront hrest htaken =>
      exact .translated (congrArg (name :: ·) hsplit) (hcons hfront) (hrefuses hrest) htaken
  | unavailable hfront hrest =>
      exact .unavailable (hcons hfront) (hrefuses hrest)

/-- Among any candidates there is a first match, or they are exhausted. -/
theorem exists_firstMatch (source : String) (load : String → StateM σ Bool) (list : List String)
    (s : σ) : ∃ tried outcome s', FirstMatch source load list s tried outcome s' := by
  induction list generalizing s with
  | nil => exact ⟨[], .unavailable, s, .unavailable List.not_mem_nil (.nil s)⟩
  | cons name rest ih =>
      by_cases hname : name = source
      · subst hname
        exact ⟨[], .source, s, .source rfl List.not_mem_nil (.nil s)⟩
      · obtain ⟨taken, s', hload⟩ : ∃ taken s', (load name).run s = (taken, s') := ⟨_, _, rfl⟩
        cases taken with
        | true =>
            have hfront : source ∉ [] ++ [name] := fun h => hname (List.mem_singleton.1 h).symm
            exact ⟨[name], .translated name, s', .translated rfl hfront (.nil s) hload⟩
        | false =>
            obtain ⟨tried, outcome, s'', h⟩ := ih s'
            exact ⟨name :: tried, outcome, s'', h.cons hname hload⟩

/-- A search through the candidates comes to their first match. -/
theorem run_selectName (h : FirstMatch source load list s tried outcome s') :
    ((fun outcome => outcome.getD .unavailable) <$> selectName source load list).run s =
      (outcome, s') := by
  have hmap : ∀ found, (selectName source load list).run s = (found, s') →
      ((fun outcome => outcome.getD .unavailable) <$> selectName source load list).run s =
        (found.getD .unavailable, s') := by
    intro found hfound
    rw [map_eq_pure_bind, run_bind_apply, hfound]
    rfl
  cases h with
  | source hsplit hfront hrefused =>
      refine hmap (some .source) ?_
      rw [hsplit, hrefused.run_selectName hfront, selectName, if_pos rfl]
      rfl
  | @translated front rest name s₁ _ hsplit hfront hrefused htaken =>
      obtain ⟨hfront, hname⟩ := not_or.1 (mt List.mem_append.2 hfront)
      have hne : name ≠ source := fun h => hname (List.mem_singleton.2 h.symm)
      refine hmap (some (.translated name)) ?_
      rw [hsplit, hrefused.run_selectName hfront, selectName, if_neg hne, run_bind_apply, htaken]
      rfl
  | unavailable hfront hrefused =>
      refine hmap none ?_
      have := hrefused.run_selectName hfront []
      rwa [List.append_nil] at this

/-- Keeping a record makes no difference to a first match, and what is recorded are the names that
the loader is called for. -/
theorem recorded (h : FirstMatch source load list s tried outcome s') (calls : List String) :
    FirstMatch source (recorded load) list (s, calls) tried outcome (s', calls ++ tried) := by
  cases h with
  | source hsplit hfront hrefused => exact .source hsplit hfront (hrefused.recorded calls)
  | @translated front rest name s₁ _ hsplit hfront hrefused htaken =>
      rw [← List.append_assoc]
      refine .translated hsplit hfront (hrefused.recorded calls) ?_
      show ((load name s₁).1, ((load name s₁).2, _)) = _
      rw [show load name s₁ = (true, s') from htaken]
  | unavailable hfront hrefused => exact .unavailable hfront (hrefused.recorded calls)

end FirstMatch

theorem run_select {languages tried : List String} {outcome : Selection} {s s' : σ}
    (h : FirstMatch source load (candidates languages) s tried outcome s') :
    (select source load languages).run s = (outcome, s') := by
  rw [select_eq, flatMap_names]
  exact h.run_selectName

/-- **Choosing a language is a first match.** The base of a language is what stands in front of its
first specifier. Whatever the loader does with its state, a search comes to an outcome with some
calls of the loader and some state exactly if this is the first match among the candidates, and the
outcome and the state are the same if the calls are not recorded. -/
theorem select_firstMatch :
    (∀ language, IsInFront (base language) language) ∧
      ∀ (load : String → StateM σ Bool) (source : String) (languages : List String) (s : σ),
        (∀ tried outcome s',
          (select source (recorded load) languages).run (s, []) = (outcome, (s', tried)) ↔
            FirstMatch source load (candidates languages) s tried outcome s') ∧
        (select source load languages).run s =
          let r := (select source (recorded load) languages).run (s, [])
          (r.1, r.2.1) := by
  refine ⟨isInFront_base, fun load source languages s => ?_⟩
  obtain ⟨tried, outcome, s', hmatch⟩ :=
    FirstMatch.exists_firstMatch source load (candidates languages) s
  have hrecorded := run_select (hmatch.recorded [])
  refine ⟨fun tried' outcome' s'' => ⟨fun hrun => ?_, fun h => run_select (h.recorded [])⟩, ?_⟩
  · rw [hrecorded] at hrun
    cases hrun
    exact hmatch
  · rw [hrecorded]
    exact run_select hmatch

/-- The source language comes up as the base of another one. Before it a name that starts with a
specifier was tried as it is, and an empty one not at all. -/
example :
    ((select "en" (fun name => do modify (· ++ [name]); pure (name == "de"))
        ["", "_x", "pt_BR", "en-US", "de"] : StateM (List String) Selection).run []).run =
      (.source, ["_x", "pt_BR", "pt", "en-US"]) := by
  decide +kernel

end MessageCatalog.Language
