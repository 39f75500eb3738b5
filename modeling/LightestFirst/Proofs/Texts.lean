import Mathlib.Data.String.Basic
import LightestFirst.Text.Sorted
-- The order of texts. By code points and by the bytes they are written in it is the same one, and sorting
-- texts without repeats puts each of them strictly before the next.
namespace LightestFirst
namespace Text

def bytes (text : String) : List UInt8 := text.toUTF8.data.toList

theorem bytes_eq (text : String) : bytes text = text.toList.flatMap String.utf8EncodeChar := by
  conv_lhs => rw [← String.ofList_toList (s := text)]
  rw [bytes, String.toUTF8_eq_toByteArray, String.toByteArray_ofList, List.utf8Encode, List.toList_data_toByteArray]

theorem front_or_digit {x y : Nat} (lower : x < y) : x / 64 < y / 64 ∨ x / 64 = y / 64 ∧ x % 64 < y % 64 := by
  omega

-- A longer code begins with a larger byte; codes of one length are compared digit by digit.
theorem encode_below {c d : Char} (below : c < d) (u v : List UInt8) :
    String.utf8EncodeChar c ++ u < String.utf8EncodeChar d ++ v := by
  have lower : c.val.toNat < d.val.toNat := UInt32.lt_iff_toNat_lt.mp (Char.lt_def.mp below)
  have bound : d.val.toNat < 0x110000 := d.valid.elim (fun low => Nat.lt_trans low (by decide)) And.right
  simp only [String.utf8EncodeChar]
  generalize c.val.toNat = x at lower ⊢
  generalize d.val.toNat = y at lower bound ⊢
  have digits : x / 262144 < y / 262144 ∨ x / 262144 = y / 262144 ∧ (x / 4096 % 64 < y / 4096 % 64 ∨
      x / 4096 % 64 = y / 4096 % 64 ∧ (x / 64 % 64 < y / 64 % 64 ∨ x / 64 % 64 = y / 64 % 64 ∧ x % 64 < y % 64)) := by
    rcases front_or_digit lower with front | last
    · rcases front_or_digit front with front | third
      · have second := front_or_digit front
        omega
      · omega
    · omega
  split_ifs
  all_goals simp only [List.cons_append, List.nil_append, List.cons_lt_cons_iff, UInt8.lt_iff_toNat_lt,
    ← UInt8.toNat_inj, UInt8.toNat_ofNat']
  all_goals simp (disch := omega) only [Nat.mod_eq_of_lt]
  all_goals omega

theorem encode_lt {s t : List Char} (below : s < t) :
    s.flatMap String.utf8EncodeChar < t.flatMap String.utf8EncodeChar := by
  induction t generalizing s with
  | nil => exact absurd below (List.not_lt_nil s)
  | cons d t ih =>
    cases s with
    | nil =>
      have some_byte : ∃ first rest, String.utf8EncodeChar d = first :: rest := by
        rw [String.utf8EncodeChar]
        split_ifs
        all_goals exact ⟨_, _, rfl⟩
      obtain ⟨first, rest, code⟩ := some_byte
      rw [List.flatMap_cons, code]
      exact List.nil_lt_cons first _
    | cons c s =>
      rw [List.flatMap_cons, List.flatMap_cons]
      rcases List.cons_lt_cons_iff.mp below with first | ⟨rfl, rest⟩
      · exact encode_below first _ _
      · exact List.append_left_lt (ih rest)

theorem bytes_lt {s t : String} (below : s < t) : bytes s < bytes t := by
  rw [bytes_eq, bytes_eq]
  exact encode_lt (String.lt_iff_toList_lt.mp below)

theorem squeeze_ascends {texts : List String} (sorted : texts.Pairwise (· ≤ ·)) :
    (squeeze texts).Pairwise (· < ·) := by
  fun_induction squeeze texts with
  | case1 => exact .nil
  | case2 => exact List.pairwise_singleton _ _
  | case3 first rest ih => exact ih (List.pairwise_cons.mp sorted).2
  | case4 first second rest different ih =>
    obtain ⟨least, behind⟩ := List.pairwise_cons.mp sorted
    refine List.pairwise_cons.mpr ⟨fun text among => ?_, ih behind⟩
    have after : second ≤ text := by
      rcases List.mem_cons.mp (mem_squeeze.mp among) with rfl | later
      · exact le_refl text
      · exact (List.pairwise_cons.mp behind).1 text later
    exact lt_of_lt_of_le (lt_of_le_of_ne (least second List.mem_cons_self) different) after

theorem sortedDistinct_ascends (texts : List String) : (sortedDistinct texts).Pairwise (· < ·) := by
  have chain : ∀ x y z : String, decide (x ≤ y) = true → decide (y ≤ z) = true → decide (x ≤ z) = true :=
    fun x y z one two => decide_eq_true (le_trans (of_decide_eq_true one) (of_decide_eq_true two))
  have either : ∀ x y : String, (decide (x ≤ y) || decide (y ≤ x)) = true := fun x y => by
    simpa using le_total x y
  have sorted := List.pairwise_mergeSort chain either texts
  exact squeeze_ascends (sorted.imp of_decide_eq_true)

end Text
end LightestFirst
