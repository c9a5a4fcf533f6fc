import Std.Data.ExtTreeMap
import MarketDataEngine.Lib.History

/-!
# Weights of a map's entries

The entries of a map, listed in the order of their keys, weigh at one key what the map holds there.
So two maps that differ at one key differ in weight by what they hold there (`tally_toList_update`).
-/

open Std

namespace History

variable {κ ν : Type*} {cmp : κ → κ → Ordering} [TransCmp cmp] [LawfulEqCmp cmp] [DecidableEq κ]

/-- What is found after an insertion. -/
theorem getElem?_insert_ite (m : ExtTreeMap κ ν cmp) (k a : κ) (v : ν) :
    (m.insert k v)[a]? = if a = k then some v else m[a]? := by
  rw [ExtTreeMap.getElem?_insert]
  rcases eq_or_ne a k with rfl | hne
  · rw [if_pos ReflCmp.compare_self, if_pos rfl]
  · rw [if_neg fun h => hne (LawfulEqCmp.eq_of_compare h).symm, if_neg hne]

/-- What is found after an erasure. -/
theorem getElem?_erase_ite (m : ExtTreeMap κ ν cmp) (k a : κ) :
    (m.erase k)[a]? = if a = k then none else m[a]? := by
  rw [ExtTreeMap.getElem?_erase]
  rcases eq_or_ne a k with rfl | hne
  · rw [if_pos ReflCmp.compare_self, if_pos rfl]
  · rw [if_neg fun h => hne (LawfulEqCmp.eq_of_compare h).symm, if_neg hne]

/-- The listed entries of a map weigh at the key `k` what the map holds at `k`. -/
theorem tally_toList (m : ExtTreeMap κ ν cmp) (k : κ) (w : ν → ℕ) :
    tally (fun kv : κ × ν => if kv.1 = k then w kv.2 else 0) m.toList = (m[k]?.map w).getD 0 := by
  cases h : m[k]? with
  | none =>
    refine tally_eq_zero fun kv hkv => if_neg ?_
    intro he
    have hget := ExtTreeMap.mem_toList_iff_getElem?_eq_some.1 hkv
    rw [he, h] at hget
    cases hget
  | some v =>
    have hmem := ExtTreeMap.mem_toList_iff_getElem?_eq_some.2 h
    obtain ⟨pre, post, hl⟩ := List.append_of_mem hmem
    have hord : m.toList.Pairwise fun a b => cmp a.1 b.1 = .lt := ExtTreeMap.ordered_keys_toList
    rw [hl, List.pairwise_append, List.pairwise_cons] at hord
    have hne : ∀ {a b : κ}, cmp a b = .lt → a ≠ b := by
      rintro a _ hlt rfl
      have heq : cmp a a = .eq := ReflCmp.compare_self
      rw [heq] at hlt
      cases hlt
    rw [hl, tally_append, tally_cons, tally_eq_zero, tally_eq_zero]
    · simp
    · exact fun kv hkv => if_neg (hne (hord.2.1.1 kv hkv)).symm
    · exact fun kv hkv => if_neg (hne (hord.2.2 kv hkv _ (List.mem_cons_self ..)))

omit [DecidableEq κ] in
/-- Each entry of a map is listed once. -/
theorem nodup_toList (m : ExtTreeMap κ ν cmp) : m.toList.Nodup := by
  refine (ExtTreeMap.ordered_keys_toList (t := m)).imp ?_
  rintro a _ hlt rfl
  have heq : cmp a.1 a.1 = .eq := ReflCmp.compare_self
  rw [heq] at hlt
  cases hlt

/-- Maps that differ at one key differ in weight by what they hold there. -/
theorem tally_toList_update {m m' : ExtTreeMap κ ν cmp} {k : κ}
    (h : ∀ a, a ≠ k → m[a]? = m'[a]?) (w : ν → ℕ) :
    tally (fun kv => w kv.2) m'.toList + (m[k]?.map w).getD 0 =
      tally (fun kv => w kv.2) m.toList + (m'[k]?.map w).getD 0 := by
  have hsplit : ∀ n : ExtTreeMap κ ν cmp, tally (fun kv => w kv.2) n.toList =
      (n[k]?.map w).getD 0 + tally (fun kv => w kv.2) (n.toList.filter fun kv => kv.1 ≠ k) := by
    intro n
    rw [← tally_toList, ← tally_split]
  have hperm : (m.toList.filter fun kv => kv.1 ≠ k).Perm (m'.toList.filter fun kv => kv.1 ≠ k) := by
    rw [List.perm_ext_iff_of_nodup ((nodup_toList m).filter _) ((nodup_toList m').filter _)]
    rintro ⟨a, v⟩
    simp only [List.mem_filter, ExtTreeMap.mem_toList_iff_getElem?_eq_some, decide_eq_true_eq]
    exact and_congr_left fun hne => by rw [h a hne]
  rw [hsplit m, hsplit m', tally_perm hperm]
  omega

end History
