import Entitle.Config.Validation
import Mathlib.Data.List.Basic

/-!
# What the check of a configuration accepts

The check looks for defects one by one. It accepts a configuration if and only if it has none of them
(`validate_eq_ok`).
-/

namespace Entitle.Config

/-- What a configuration is checked for. -/
structure IsAccepted (c : Config) : Prop where
  scheme : isHttp c.api.baseUrl
  timeout : 0 < c.api.timeoutSeconds
  apiKey : ∀ key, c.api.apiKey = some key → ¬ isBlankText key
  concurrency : 0 < c.dispatch.maxConcurrent
  delays : c.dispatch.defaultDelay ≤ c.dispatch.longDelay
  stateDir : c.cache.stateDir ≠ some ""

theorem not_isBlankText_of_isHttp {url : String} (h : isHttp url) : ¬ isBlankText url := by
  have hfirst : 'h' ∈ url.toList := by
    rw [isHttp, Bool.or_eq_true, List.isPrefixOf_iff_prefix, List.isPrefixOf_iff_prefix] at h
    rcases h with h | h <;> exact h.subset (by decide)
  exact fun hblank => absurd (List.all_eq_true.1 hblank 'h' hfirst) (by decide)

/-- One check in a row of them. -/
theorem ite_defect_eq_none {p : Prop} [Decidable p] {defect : Defect} {rest : Option Defect} :
    (if p then some defect else rest) = none ↔ ¬ p ∧ rest = none := by
  split <;> simp [*]

theorem Api.defect?_eq_none {a : Api} :
    a.defect? = none ↔ isHttp a.baseUrl ∧ 0 < a.timeoutSeconds ∧ ∀ key, a.apiKey = some key → ¬ isBlankText key := by
  have hkeys : ¬ a.apiKey.any isBlankText ↔ ∀ key, a.apiKey = some key → ¬ isBlankText key := by
    cases a.apiKey <;> simp
  have hscheme : ¬ (!isHttp a.baseUrl) ↔ isHttp a.baseUrl := by simp
  rw [Api.defect?, ite_defect_eq_none, ite_defect_eq_none, ite_defect_eq_none, ite_defect_eq_none, hkeys, hscheme,
    Nat.pos_iff_ne_zero, and_iff_left rfl]
  exact ⟨And.right, fun h => ⟨not_isBlankText_of_isHttp h.1, h⟩⟩

theorem dispatchDefect?_eq_none {l : Flight.Limits} :
    dispatchDefect? l = none ↔ 0 < l.maxConcurrent ∧ l.defaultDelay ≤ l.longDelay := by
  rw [dispatchDefect?, ite_defect_eq_none, ite_defect_eq_none, Nat.pos_iff_ne_zero, Nat.not_lt, and_iff_left rfl]

theorem Cache.defect?_eq_none {c : Cache} : c.defect? = none ↔ c.stateDir ≠ some "" := by
  rw [Cache.defect?, ite_defect_eq_none, and_iff_left rfl]

theorem validate_eq_ok {c : Config} : validate c = .ok () ↔ IsAccepted c := by
  have hnone : validate c = .ok () ↔
      (c.api.defect? = none ∧ dispatchDefect? c.dispatch = none) ∧ c.cache.defect? = none := by
    rw [validate, ← Option.or_eq_none_iff, ← Option.or_eq_none_iff]
    cases (c.api.defect?.or (dispatchDefect? c.dispatch)).or c.cache.defect? <;> simp
  rw [hnone, Api.defect?_eq_none, dispatchDefect?_eq_none, Cache.defect?_eq_none]
  constructor
  · rintro ⟨⟨⟨hscheme, htimeout, hkey⟩, hconcurrency, hdelays⟩, hdir⟩
    exact ⟨hscheme, htimeout, hkey, hconcurrency, hdelays, hdir⟩
  · intro h
    exact ⟨⟨⟨h.scheme, h.timeout, h.apiKey⟩, h.concurrency, h.delays⟩, h.stateDir⟩

end Entitle.Config
