import Stencil.Config.Cache
import Stencil.Proofs.Places
import Stencil.Text.Digest

/-!
# Keys of configurations

A key tells all that it is made of but what the digest drops: the root of the project, as a place has
a text of its own, whether the configuration was validated, and the digest, as all digests are of one
length.

* `Digest.length_ofString`: the length of a digest;
* `Config.Cache.key_parts_inj`, `Config.Cache.key_inj`: what equal keys are made of.
-/

namespace Stencil

theorem Digest.length_digits (word : UInt32) : (digits word).length = 8 := by
  rw [digits, List.length_map, List.length_range]

/-- All digests are of the same length. -/
theorem Digest.length_ofString (s : String) : (ofString s).length = keptDigits := by
  rw [ofString, String.length_ofList, List.length_take, List.length_flatMap, words]
  simp [length_digits, keptDigits]

namespace Config.Cache

/-- The two marks are no endings of each other. -/
theorem validityMark_inj {a b : List Char} {v v' : Bool}
    (h : a ++ (validityMark v).toList = b ++ (validityMark v').toList) : a = b ∧ v = v' := by
  have hmark : v = v' := by
    have hlast := congrArg List.getLast? h
    revert hlast
    cases v <;> cases v' <;> simp [validityMark]
  subst hmark
  exact ⟨List.append_cancel_right h, rfl⟩

section Key

variable {digest : String → String} {p q : Place} {v v' : Bool} {o o' : Observed} {n : Nat}
  (hlen : ∀ s, (digest s).length = n) (h : key digest p v o = key digest q v' o')

include hlen h

/-- Equal keys have the same parts, whatever characters are in them. -/
theorem key_parts_inj : (FilePath.ofPlace p).text = (FilePath.ofPlace q).text ∧ v = v' ∧
    digest (o.value.literal?.getD "") = digest (o'.value.literal?.getD "") := by
  rw [key, key, ← String.toList_inj] at h
  simp only [String.toList_append] at h
  obtain ⟨h, hdigest⟩ := List.append_inj' h (by
    rw [String.length_toList, String.length_toList, hlen, hlen])
  obtain ⟨htext, hv⟩ := validityMark_inj (List.append_cancel_right h)
  exact ⟨String.toList_inj.1 htext, hv, String.toList_inj.1 hdigest⟩

/-- Equal keys are of the same project and the same kind, and made with the same digest. -/
theorem key_inj (hp : p.IsClean) (hq : q.IsClean) : p = q ∧ v = v' ∧
    digest (o.value.literal?.getD "") = digest (o'.value.literal?.getD "") := by
  obtain ⟨htext, hrest⟩ := key_parts_inj hlen h
  exact ⟨FilePath.eq_of_text_ofPlace_eq hp hq htext, hrest⟩

end Key

end Config.Cache

end Stencil
