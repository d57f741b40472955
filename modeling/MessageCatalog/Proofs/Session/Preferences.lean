import MessageCatalog.Draft
import MessageCatalog.Proofs.Session.Histories

set_option autoImplicit false

/-! # Preferred languages and the active catalog

A search through the preferred languages loads catalogs as it goes, so what it says and which
catalog is active afterwards come about in different places. They agree (`select_agrees`): if the
search says that a language is translated, then the catalog of that language is active, and if it
says that there is no translation, then no catalog is active, unless not a single language was
tried. In that case the session stays as it was, a catalog that is active included
(`select_source_kept`).
-/

namespace MessageCatalog.Session

open MessageCatalog.Language (Selection selectName select names)

variable {file : String → Except ReadFailure ByteStream} {options : LoadOptions}
variable {source : String} {languages : List String} {s : Session}

/-- The catalog that a language has, looked at on its own. -/
def found (file : String → Except ReadFailure ByteStream) (options : LoadOptions)
    (name : String) : Option Catalog :=
  (Catalog.ofFile (file name) name options).value.toOption.bind Except.toOption

theorem found_eq_some_iff {name : String} {c : Catalog} :
    found file options name = some c ↔
      (Catalog.ofFile (file name) name options).value = .ok (.ok c) := by
  unfold found
  rcases (Catalog.ofFile (file name) name options).value with overflow | e | d
  · exact ⟨nofun, nofun⟩
  · exact ⟨nofun, nofun⟩
  · constructor
    · intro h
      rw [Option.some.inj h]
    · intro h
      cases h
      rfl

/-! ## One name -/

/-- A search goes on with the session that the step before it left. -/
theorem value_bind_apply {α β : Type} {x : Loading α} {s s' : Session} {a : α}
    (h : (x s).value = .ok (a, s')) (f : α → Loading β) : ((x >>= f) s).value = (f a s').value :=
  Checked.value_bind_of_ok h _

section
variable (hlimit : options.maxSize + 1 < UInt64.size)
include hlimit

theorem value_tryLoad (name : String) (s : Session) :
    (tryLoad file options name s).value =
      .ok ((found file options name).isSome, ⟨found file options name⟩) := by
  have hfits : (file name).isOk → options.maxSize + 1 < UInt64.size := fun _ => hlimit
  obtain ⟨result, hresult⟩ := exists_value_ofFile hfits name
  have hfound : found file options name = result.toOption := by
    rw [found, hresult]
    rfl
  have hafter := value_after hresult s name
  rw [hfound]
  refine (Checked.value_bind_of_ok hafter _).trans ?_
  cases result <;> rfl

theorem value_selectName_cons (name : String) (rest : List String) (s : Session) :
    (selectName source (tryLoad file options) (name :: rest) s).value =
      if name = source then .ok (some .source, s)
      else match found file options name with
        | some c => .ok (some (.translated name), ⟨some c⟩)
        | none => (selectName source (tryLoad file options) rest ⟨none⟩).value := by
  rw [selectName]
  by_cases hname : name = source
  · rw [if_pos hname, if_pos hname]
    rfl
  · rw [if_neg hname, if_neg hname, value_bind_apply (value_tryLoad hlimit name s)]
    cases found file options name <;> rfl

/-- A name that decides the search ends it, and what stands behind it makes no difference. -/
theorem value_selectName_append (first second : List String) (s : Session) :
    (selectName source (tryLoad file options) (first ++ second) s).value =
      match (selectName source (tryLoad file options) first s).value with
      | .ok (some selection, s') => .ok (some selection, s')
      | .ok (none, s') => (selectName source (tryLoad file options) second s').value
      | .error overflow => .error overflow := by
  induction first generalizing s with
  | nil => rfl
  | cons name rest ih =>
      rw [List.cons_append, value_selectName_cons hlimit, value_selectName_cons hlimit]
      by_cases hname : name = source
      · rw [if_pos hname, if_pos hname]
      · rw [if_neg hname, if_neg hname]
        cases found file options name with
        | none => exact ih ⟨none⟩
        | some c => rfl

/-! ## All names -/

omit hlimit in
theorem value_select_cons (language : String) (rest : List String) (s : Session) :
    (select source (tryLoad file options) (language :: rest) s).value =
      match (selectName source (tryLoad file options) (names language) s).value with
      | .ok (some selection, s') => .ok (selection, s')
      | .ok (none, s') => (select source (tryLoad file options) rest s').value
      | .error overflow => .error overflow := by
  rw [select]
  cases h : (selectName source (tryLoad file options) (names language) s).value with
  | error overflow => exact Checked.value_bind_of_error h _
  | ok r =>
      obtain ⟨outcome, s'⟩ := r
      rw [value_bind_apply h]
      cases outcome <;> rfl

/-- A search through languages is a search through their names. -/
theorem value_select (languages : List String) (s : Session) :
    (select source (tryLoad file options) languages s).value =
      (selectName source (tryLoad file options) (languages.flatMap names) s).value.map
        fun r => (r.1.getD .unavailable, r.2) := by
  induction languages generalizing s with
  | nil => rfl
  | cons language rest ih =>
      rw [value_select_cons, List.flatMap_cons, value_selectName_append hlimit]
      rcases (selectName source (tryLoad file options) (names language) s).value with
        overflow | ⟨outcome, s'⟩
      · rfl
      · cases outcome with
        | none => exact ih s'
        | some selection => rfl

/-- A search through names that finds nothing has taken the active catalog away, unless it tried
nothing: there were no names, or the first of them was that of the source language. -/
theorem value_selectName (list : List String) (s : Session) :
    (∃ name c, (selectName source (tryLoad file options) list s).value =
        .ok (some (.translated name), ⟨some c⟩) ∧ found file options name = some c) ∨
      ∃ outcome, (selectName source (tryLoad file options) list s).value =
          .ok (outcome, if ∃ name ∈ list.head?, name ≠ source then ⟨none⟩ else s) ∧
        (outcome = some .source ∨ outcome = none) := by
  induction list generalizing s with
  | nil => exact .inr ⟨none, rfl, .inr rfl⟩
  | cons name rest ih =>
      rw [value_selectName_cons hlimit]
      by_cases hname : name = source
      · rw [if_pos hname]
        refine .inr ⟨some .source, ?_, .inl rfl⟩
        rw [if_neg]
        rintro ⟨other, hother, hne⟩
        exact hne (Option.some.inj hother ▸ hname)
      · rw [if_neg hname]
        have htried : ∃ other ∈ (name :: rest).head?, other ≠ source := ⟨name, rfl, hname⟩
        cases hfound : found file options name with
        | some c => exact .inl ⟨name, c, rfl, hfound⟩
        | none =>
            rcases ih ⟨none⟩ with hsome | ⟨outcome, hvalue, houtcome⟩
            · exact .inl hsome
            · refine .inr ⟨outcome, ?_, houtcome⟩
              -- Once a catalog has failed to load none is active, so going on keeps it that way.
              rw [hvalue, if_pos htried, ite_self]

end

theorem head?_names (language : String) :
    (names language).head? = if language = "" then none else some language := by
  unfold names
  by_cases h : language = ""
  · rw [if_pos (String.isEmpty_iff.2 h), if_pos h]
    rfl
  · rw [if_neg (mt String.isEmpty_iff.1 h), if_neg h]
    split <;> rfl

/-- The first name to try is that of the first language that has one. -/
theorem head?_flatMap_names (languages : List String) :
    (languages.flatMap names).head? = languages.find? (· ≠ "") := by
  induction languages with
  | nil => rfl
  | cons language rest ih =>
      rw [List.flatMap_cons, List.head?_append, head?_names, ih]
      by_cases h : language = ""
      · rw [if_pos h, List.find?_cons_of_neg (by simp [h])]
        rfl
      · rw [if_neg h, List.find?_cons_of_pos (by simp [h])]
        rfl

/-! ## The search and the session -/

/-- A search tries to load something: the first language that has a name is not that of the source
texts. -/
def Tries (source : String) (languages : List String) : Prop :=
  ∃ language ∈ languages.find? (· ≠ ""), language ≠ source

instance : Decidable (Tries source languages) :=
  inferInstanceAs (Decidable (∃ language ∈ languages.find? (· ≠ ""), language ≠ source))

/-- Without an active catalog every text stays as it is. -/
theorem text_of_active_eq_none (h : s.active = none) (message : String) :
    s.text message = message := by
  rw [text, translate, h]
  rfl

/-- The loader that has the bytes of the catalogs at hand, and none for a language without a
catalog: it loads the bytes of a language under the name of the language. -/
def loadFrom (catalogs : String → Option Bytes) (language : String) : Loading Bool := fun s => do
  let (result, s) ← s.load (.ofBytes ((catalogs language).getD [])) language {}
  pure (result.isOk, s)

/-- It does not matter whether the bytes come from a file. -/
theorem loadFrom_eq (catalogs : String → Option Bytes) :
    loadFrom catalogs =
      tryLoad (fun language => .ok (.ofBytes ((catalogs language).getD []))) {} :=
  rfl

/-- **What a search says is so.** It comes to its end. If it says that a language is translated,
then the catalog that the loader makes of the bytes of the language is active. If it says that there
is no translation, then no catalog is active and every text stays as it is, as long as some language
was tried or none was active before. If no language was tried, nothing has changed. -/
theorem select_agrees (s : Session) (source : String) (languages : List String)
    (catalogs : String → Option Bytes) :
    ∃ r, (select source (loadFrom catalogs) languages s).value = .ok r ∧
      (∀ l, r.1 = .translated l →
        ∃ c, (Catalog.load (.ofBytes ((catalogs l).getD [])) l {}).value = .ok (.ok c) ∧
          r.2.active = some c) ∧
      (r.1 = .source ∨ r.1 = .unavailable →
        (Tries source languages ∨ s.active = none →
          r.2.active = none ∧ ∀ message, r.2.text message = message) ∧
        (¬ Tries source languages → r.2 = s)) := by
  have hlimit := Catalog.maxSize_default_lt
  rw [loadFrom_eq, value_select hlimit]
  rcases value_selectName hlimit (languages.flatMap names) s with
    ⟨name, c, hsome, hfound⟩ | ⟨outcome, hnone, houtcome⟩
  · rw [hsome]
    refine ⟨_, rfl, ?_, ?_⟩
    · intro l hl
      obtain rfl : name = l := Selection.translated.inj hl
      exact ⟨c, found_eq_some_iff.1 hfound, rfl⟩
    · rintro (h | h) <;> cases h
  · rw [hnone, head?_flatMap_names]
    refine ⟨_, rfl, ?_, fun _ => ⟨?_, ?_⟩⟩
    · intro l hl
      rcases houtcome with rfl | rfl <;> cases hl
    · intro h
      have hactive : (if Tries source languages then (⟨none⟩ : Session) else s).active = none := by
        by_cases htries : Tries source languages
        · rw [if_pos htries]
        · rw [if_neg htries]
          exact h.resolve_left htries
      exact ⟨hactive, text_of_active_eq_none hactive⟩
    · intro htries
      exact if_neg htries

/-- A session that translates into German. -/
def german : Session :=
  ⟨(Catalog.ofBytes (Draft.empty.add (Utf8.encode "yes") (Utf8.encode "ja")).write "de.mo"
    {}).value.toOption⟩

/-- Where nothing is tried, the catalog from before stays: the source language comes first, or there
is no language. -/
theorem select_source_kept :
    ∃ r r', (select "en" (loadFrom fun _ => none) ["en"] german).value = .ok r ∧
      (select "en" (loadFrom fun _ => none) [] german).value = .ok r' ∧
      r.1 = .source ∧ r.2.active ≠ none ∧ r.2.text "yes" = "ja" ∧
      r'.1 = .unavailable ∧ r'.2.active ≠ none ∧ r'.2.text "yes" = "ja" := by
  have hactive : german.active ≠ none ∧ german.text "yes" = "ja" := by decide +kernel
  have hnames : ["en"].flatMap names = ["en"] := by decide +kernel
  have hsource : (select "en" (loadFrom fun _ => none) ["en"] german).value =
      .ok (.source, german) := by
    rw [loadFrom_eq, value_select Catalog.maxSize_default_lt, hnames,
      value_selectName_cons Catalog.maxSize_default_lt, if_pos rfl]
    rfl
  exact ⟨_, _, hsource, rfl, rfl, hactive.1, hactive.2, rfl, hactive.1, hactive.2⟩

end MessageCatalog.Session
