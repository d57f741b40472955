import MessageCatalog.Catalog
import MessageCatalog.Proofs.Mo.Acceptance
import MessageCatalog.Proofs.Mo.Untrusted

set_option autoImplicit false

/-! # Loading a catalog

`check_eq_ok_iff` says which files are loaded, and `ofBytes_eq_ok_iff` what catalog comes of them.
Whatever else such a file holds, its tables lie inside of it (`hasTables_of_check`).
-/

namespace MessageCatalog.Catalog

open Mo

variable {data : Bytes} {options : LoadOptions} {m : Image} {c : Catalog} {name : String}

/-- A file is loaded if it has a size between the limits and a sound header. If the order is
checked and there is no hash table to speak of, its keys have to be in order too. -/
theorem check_eq_ok_iff :
    check data options = .ok m ↔ minSize ≤ data.length ∧ data.length ≤ options.maxSize ∧
      Mo.normalize data = (.ok m.header, m.data.toList) ∧
      (options.checkOrder = true → m.header.isHashed = false → m.isAscending = true) := by
  unfold check
  by_cases hmin : data.length < minSize
  · have hmin' : ¬ minSize ≤ data.length := Nat.not_le.2 hmin
    cases data.isEmpty <;> simp [hmin, hmin', throw, throwThe, MonadExceptOf.throw, bind,
      Except.bind]
  · have hempty : data.isEmpty = false := by
      rw [List.isEmpty_eq_false_iff]
      rintro rfl
      exact hmin (by decide)
    by_cases hmax : options.maxSize < data.length
    · simp [hempty, hmin, hmax, Nat.not_le.2 hmax, throw, throwThe, MonadExceptOf.throw, bind,
        Except.bind]
    · simp only [hempty, Bool.false_eq_true, if_false, if_neg hmin, if_neg hmax, Nat.not_lt.1 hmin,
        Nat.not_lt.1 hmax, true_and]
      obtain ⟨result, normalized⟩ := Mo.normalize data
      cases result with
      | error defect => simp [throw, throwThe, MonadExceptOf.throw]
      | ok header =>
          simp only [pure, Except.pure, bind, Except.bind, Prod.mk.injEq, Except.ok.injEq]
          constructor
          · intro h
            split at h
            · cases h
            · rename_i hascending
              obtain rfl := Except.ok.inj h
              refine ⟨⟨rfl, rfl⟩, fun hcheck hhashed => ?_⟩
              have hhashed : header.isHashed = false := hhashed
              simpa [hcheck, hhashed] using hascending
          · rintro ⟨⟨rfl, rfl⟩, hascending⟩
            show (if (options.checkOrder && !m.header.isHashed && !m.isAscending) = true then _
              else Except.ok m) = _
            refine if_neg ?_
            simpa using hascending

theorem value_ofBytes (data : Bytes) (name : String) (options : LoadOptions) :
    (ofBytes data name options).value =
      (check data options).map fun m => ⟨name, m, (ruleOf m).value⟩ := by
  unfold ofBytes
  cases check data options <;> rfl

theorem ofBytes_of_check (h : check data options = .ok m) (name : String) :
    (ofBytes data name options).value = .ok ⟨name, m, (ruleOf m).value⟩ := by
  rw [value_ofBytes, h]
  rfl

theorem ofBytes_eq_ok_iff :
    (ofBytes data name options).value = .ok c ↔
      check data options = .ok c.image ∧ c.name = name ∧ c.rule = (ruleOf c.image).value := by
  rw [value_ofBytes]
  cases check data options with
  | error e => simp [Except.map]
  | ok m =>
      obtain ⟨name', image, rule⟩ := c
      simp only [Except.map, Except.ok.injEq, Catalog.mk.injEq]
      constructor
      · rintro ⟨rfl, rfl, rfl⟩
        exact ⟨rfl, rfl, rfl⟩
      · rintro ⟨rfl, rfl, rfl⟩
        exact ⟨rfl, rfl, rfl⟩

/-- The tables of a file that was loaded lie in the file. -/
theorem hasTables_of_check (h : check data options = .ok m) : m.HasTables := by
  obtain ⟨-, -, hok, -⟩ := check_eq_ok_iff.1 h
  have hlength : m.data.toList.length = data.length := (outside_normalize hok).1
  have hsize : data.length = m.data.size := hlength.symm.trans Array.length_toList
  obtain ⟨hl, -⟩ := normalize_eq_ok_iff.1 hok
  obtain ⟨hsound, -⟩ := layout_eq_ok_iff_isSoundIn.1 hl
  exact ⟨hsize ▸ hsound.sources, hsize ▸ hsound.targets, hsize ▸ hsound.slots⟩

end MessageCatalog.Catalog
