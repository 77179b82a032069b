import Mathlib.Data.Nat.Digits.Lemmas
import UnusedMethods.Loading

/-!
# The number of paths

A path that leads to an entry has fewer bytes than the limit. Read as the digits of a number, with
a one in front, its bytes give each such path a positive number of its own below `Disk.pathCount`.
So a list of different ones is never as long as `Disk.pathCount`, and a search that takes no path
twice runs out of paths before it runs out of steps.
-/

namespace UnusedMethods

namespace Path

/-- The number whose digits are the bytes of a path. The one in front keeps apart paths that differ
in zeros at their ends. -/
def code (p : Path) : Nat :=
  Nat.ofDigits 256 (p.toUTF8.data.toList.map UInt8.toNat ++ [1])

theorem digits_code (p : Path) :
    Nat.digits 256 p.code = p.toUTF8.data.toList.map UInt8.toNat ++ [1] := by
  apply Nat.digits_ofDigits 256 (by omega)
  · intro digit member
    simp only [List.mem_append, List.mem_map, List.mem_singleton] at member
    rcases member with ⟨byte, _, rfl⟩ | rfl
    · exact byte.toNat_lt
    · omega
  · simp

theorem code_injective : Function.Injective code := by
  intro p q same
  have digits := congrArg (Nat.digits 256) same
  rw [digits_code, digits_code] at digits
  -- Both lists of digits end with the one in front.
  have bytes := List.append_cancel_right digits
  have equal := (List.map_injective_iff.mpr fun _ _ => UInt8.toNat.inj) bytes
  exact String.toByteArray_inj.mp (ByteArray.ext (Array.ext' equal))

theorem code_pos (p : Path) : 0 < p.code := by
  rw [code, Nat.ofDigits_append]
  simp [Nat.ofDigits_singleton]

/-- A path within the limits of a disk. -/
def IsShort (p : Path) : Prop :=
  p.utf8ByteSize < Disk.pathLimit

instance (p : Path) : Decidable p.IsShort :=
  inferInstanceAs (Decidable (p.utf8ByteSize < Disk.pathLimit))

theorem code_lt (p : Path) (short : p.IsShort) : p.code < Disk.pathCount := by
  unfold IsShort at short
  unfold Disk.pathCount
  -- A limit that is only a name keeps the power from being worked out.
  generalize Disk.pathLimit = limit at short ⊢
  have length : (Nat.digits 256 p.code).length ≤ limit := by
    rw [digits_code, List.length_append, List.length_map]
    exact short
  calc p.code < 256 ^ (Nat.digits 256 p.code).length := Nat.lt_base_pow_length_digits (by omega)
    _ ≤ 256 ^ limit := Nat.pow_le_pow_right (by omega) length

/-- There are finitely many short paths. -/
theorem finite_isShort : {p : Path | p.IsShort}.Finite := by
  apply Set.Finite.of_finite_image _ code_injective.injOn
  apply (Set.finite_lt_nat Disk.pathCount).subset
  rintro _ ⟨p, short, rfl⟩
  exact code_lt p short

/-- Different short paths are fewer than the count of paths. The count has room for one more, since
no path has the code zero. -/
theorem length_lt_pathCount (paths : List Path) (different : paths.Nodup)
    (short : ∀ p ∈ paths, p.IsShort) : paths.length < Disk.pathCount := by
  -- Zero and the codes of the paths are different numbers below the count.
  have nodup : (0 :: paths.map code).Nodup := by
    refine List.nodup_cons.mpr ⟨?_, different.map code_injective⟩
    intro member
    obtain ⟨p, _, zero⟩ := List.mem_map.mp member
    exact absurd zero (code_pos p).ne'
  have within : 0 :: paths.map code ⊆ List.range Disk.pathCount := by
    intro n member
    rcases List.mem_cons.mp member with rfl | coded
    · exact List.mem_range.mpr (Nat.zero_lt_of_lt (code_lt "" (by decide)))
    · obtain ⟨p, listed, rfl⟩ := List.mem_map.mp coded
      exact List.mem_range.mpr (code_lt p (short p listed))
  have bounded := (List.subperm_of_subset nodup within).length_le
  simpa only [List.length_cons, List.length_map, List.length_range, Nat.succ_le_iff] using bounded

end Path

end UnusedMethods
