import Mathlib.Data.List.Basic

namespace Yeah.Text

/-- The id of a row, as the database makes it. -/
structure Uuid where
  text : String
  length_eq : text.length = 36
  plain : ∀ c ∈ text.toList, c.isAlphanum = true ∨ c = '-'
  deriving DecidableEq

namespace Uuid

theorem ext_text {a b : Uuid} (h : a.text = b.text) : a = b := by
  cases a
  cases b
  simpa using h

theorem notMem (a : Uuid) {c : Char} (hc : c.isAlphanum = false) (hd : c ≠ '-') : c ∉ a.text.toList :=
  fun h =>
  (a.plain c h).elim (fun h' => by simp [hc] at h') hd

theorem length_toList (a : Uuid) : a.text.toList.length = 36 := by rw [String.length_toList, a.length_eq]

/-- The id of one character, over and over. -/
def fill (c : Char) (h : c.isAlphanum = true) : Uuid where
  text := String.ofList (List.replicate 36 c)
  length_eq := by simp
  plain := fun d hd => Or.inl (by
    rw [String.toList_ofList] at hd
    exact List.eq_of_mem_replicate hd ▸ h)

theorem isAlphanum_a : 'a'.isAlphanum = true := rfl

@[simp] theorem fill_inj {c d : Char} (h : c.isAlphanum = true) (h' : d.isAlphanum = true) :
    fill c h = fill d h' ↔ c = d := by
  refine ⟨fun he => ?_, fun he => by subst he; rfl⟩
  have ht := congrArg (fun a : Uuid => a.text.toList.head?) he
  simpa [fill] using ht

end Uuid

end Yeah.Text
