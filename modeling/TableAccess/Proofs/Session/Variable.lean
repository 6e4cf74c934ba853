import TableAccess.Proofs.Text.Bytes
import TableAccess.Session.Variable

/-!
# How session variables are told apart

Whether two names are names of the same variable is seen from their bytes where they stand; variables are
ordered by the bytes of their folded names, and hashed by them. These are three ways to tell variables apart,
and they agree, on names of any characters.

* `same_eq_agree`, `compare_eq_compare_foldedBytes`: what the bytes of the names say.
* `compare_eq_iff_same`, `hashed_eq_iff_same`: **variables are the same exactly if they compare equal, and
  exactly if they give the same bytes to a hash.**
* `isReference_iff`: what the bytes of a string say on whether it refers to a variable.
-/

namespace TableAccess.SessionVariable

open Text (bytes agree)

variable {v w : SessionVariable}

/-- The bytes of a variable's name with small letters. -/
def foldedBytes (v : SessionVariable) : List UInt8 := (bytes v.name).map UInt8.toAsciiLower

theorem bytes_folded (v : SessionVariable) : bytes v.folded = v.foldedBytes := Text.bytes_fold v.name

/-! ## The same variable -/

theorem same_iff : v.same w = true ↔ v.folded = w.folded := beq_iff_eq

theorem equivalence_same : Equivalence fun v w : SessionVariable => v.same w = true where
  refl _ := same_iff.2 rfl
  symm h := same_iff.2 (same_iff.1 h).symm
  trans h h' := same_iff.2 ((same_iff.1 h).trans (same_iff.1 h'))

/-- **Names are names of the same variable exactly if their bytes agree**, compared where they stand. -/
theorem same_eq_agree (v w : SessionVariable) : v.same w = agree (bytes v.name) (bytes w.name) := by
  rw [Bool.eq_iff_iff, same_iff, Text.agree_iff]
  show _ ↔ v.foldedBytes = w.foldedBytes
  rw [← bytes_folded, ← bytes_folded]
  exact ⟨congrArg bytes, Text.bytes_injective⟩

/-! ## Order and hash -/

/-- **Variables are ordered by the folded bytes** of their names. -/
theorem compare_eq_compare_foldedBytes (v w : SessionVariable) :
    compare v w = compare v.foldedBytes w.foldedBytes := by
  rw [← bytes_folded, ← bytes_folded, Text.compare_bytes]
  rfl

/-- Two names are names of the same variable exactly if they compare equal. -/
theorem compare_eq_iff_same : compare v w = .eq ↔ v.same w = true := by
  show compare v.folded w.folded = .eq ↔ (v.folded == w.folded) = true
  rw [Std.LawfulEqCmp.compare_eq_iff_eq, beq_iff_eq]

/-- Two names are names of the same variable exactly if they give the same bytes to a hash. -/
theorem hashed_eq_iff_same : v.hashed = w.hashed ↔ v.same w = true := by
  rw [hashed, hashed, List.append_left_inj, same_iff]
  exact ⟨Text.bytes_injective, congrArg bytes⟩

/-! ## References -/

theorem isReference_iff_starts {s : String} : isReference s = true ↔ marker <+: (Text.fold s).toList := by
  rw [isReference, beq_iff_eq, List.map_take, List.prefix_iff_eq_take, Text.fold, String.toList_ofList,
    eq_comm]

/-- **Whether a string refers to a variable is seen from its first bytes**, compared where they stand. -/
theorem isReference_iff {s : String} : isReference s = true ↔
    (bytes "x-hasura-").length ≤ (bytes s).length ∧
      agree ((bytes s).take (bytes "x-hasura-").length) (bytes "x-hasura-") = true := by
  have hmarker : bytes "x-hasura-" = marker.flatMap String.utf8EncodeChar := Text.bytes_eq_flatMap _
  have hsmall : (bytes "x-hasura-").map UInt8.toAsciiLower = bytes "x-hasura-" := by decide +kernel
  have hstart : isReference s = true ↔
      bytes "x-hasura-" = ((bytes s).take (bytes "x-hasura-").length).map UInt8.toAsciiLower := by
    rw [isReference_iff_starts, ← Text.flatMap_prefix_iff, ← hmarker, ← Text.bytes_eq_flatMap,
      Text.bytes_fold, List.prefix_iff_eq_take, List.map_take]
  rw [hstart, Text.agree_iff, hsmall, eq_comm]
  refine (and_iff_right_of_imp fun h => ?_).symm
  have hlength := congrArg List.length h
  rw [List.length_map, List.length_take] at hlength
  exact min_eq_left_iff.1 hlength

/-- Names of the same variable refer to it alike. -/
theorem isReference_congr (h : v.same w = true) : isReference v.name = isReference w.name := by
  rw [Bool.eq_iff_iff, isReference_iff_starts, isReference_iff_starts]
  show marker <+: v.folded.toList ↔ marker <+: w.folded.toList
  rw [same_iff.1 h]

end TableAccess.SessionVariable
