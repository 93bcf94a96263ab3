import StoreQuery.Proofs.Memory.Pages
import Mathlib.Order.Bounds.Basic

/-!
# What a page says about itself

A page of a result carries its number and the number of pages. All pages have one size, the limit of
the request or else the total, and they are counted from 1.

**The number of pages is always right, and the number of the page is right but in one place**
(`shape_counts`). With pages of one row the number is one more than the offset. So at the last
offset there is it does not fit into 64 bits, and becomes 0. A larger size leaves room for the one,
and rounding up adds one to a quotient only where the size is at least two.
-/

namespace StoreQuery.Page

/-- The row at an offset is on a page; pages have a size and are counted from 1. -/
structure Holds (size offset page : Nat) : Prop where
  counted : 1 ≤ page
  starts : (page - 1) * size ≤ offset
  ends : offset < page * size

/-! ## Pages as whole numbers -/

section Numbers

variable {size offset total page : Nat}

theorem holds_iff (hsize : 0 < size) : Holds size offset page ↔ page = offset / size + 1 := by
  constructor
  · rintro ⟨hcounted, hstarts, hends⟩
    obtain ⟨before, rfl⟩ := Nat.exists_eq_add_of_le' hcounted
    rw [Nat.add_sub_cancel] at hstarts
    rw [Nat.div_eq_of_lt_le hstarts hends]
  · rintro rfl
    refine ⟨Nat.le_add_left 1 _, ?_, ?_⟩
    · rw [Nat.add_sub_cancel]
      exact Nat.div_mul_le_self offset size
    · exact Nat.lt_mul_of_div_lt (Nat.lt_succ_self _) hsize

theorem isLeast_ceilDiv (hsize : 0 < size) (total : Nat) :
    IsLeast {pages | total ≤ pages * size} (total ⌈/⌉ size) := by
  constructor
  · show total ≤ (total ⌈/⌉ size) * size
    rw [Nat.mul_comm]
    exact le_smul_ceilDiv hsize
  · intro pages hpages
    rw [Set.mem_ofPred_eq, Nat.mul_comm] at hpages
    exact (ceilDiv_le_iff_le_mul hsize).2 hpages

end Numbers

/-! ## Pages as numbers of 64 bits -/

variable {size offset : UInt64}

theorem toNat_maxWord : maxWord.toNat = UInt64.size - 1 :=
  UInt64.toNat_ofNat_of_lt' (by decide)

theorem div_succ_lt_iff (hsize : 0 < size.toNat) :
    offset.toNat / size.toNat + 1 < UInt64.size ↔ ¬ (size = 1 ∧ offset = maxWord) := by
  have hoffset : offset.toNat < UInt64.size := offset.toNat_lt
  have hone : size = 1 ↔ size.toNat = 1 := UInt64.toNat_inj.symm
  have hlast : offset = maxWord ↔ offset.toNat = UInt64.size - 1 := by
    rw [← toNat_maxWord, UInt64.toNat_inj]
  rw [hone, hlast]
  constructor
  · rintro hfits ⟨h, h'⟩
    rw [h, h', Nat.div_one] at hfits
    omega
  · intro h
    by_cases hsame : size.toNat = 1
    · rw [hsame, Nat.div_one]
      omega
    · have htwo : 2 ≤ size.toNat := by omega
      have hhalf := Nat.div_le_div_left (a := offset.toNat) htwo Nat.two_pos
      have hpos : 2 < UInt64.size := by decide
      omega

theorem holds_numberOf_iff (hsize : 0 < size.toNat) :
    (∀ page, Holds size.toNat offset.toNat page ↔ page = (numberOf size offset).toNat) ↔
      ¬ (size = 1 ∧ offset = maxWord) := by
  simp only [holds_iff hsize, ← div_succ_lt_iff hsize]
  rw [toNat_numberOf hsize]
  constructor
  · intro h
    rw [(h _).1 rfl]
    exact Nat.mod_lt _ (by decide)
  · intro hfits page
    rw [Nat.mod_eq_of_lt hfits]

/-- **A page says how many rows it has, how many pages there are and which one it is.** The number
of the page is right for every offset but the last one on pages of one row; there it is 0. -/
theorem shape_counts {α : Type} (rows : List α) (hrows : rows.length < UInt64.size)
    (total offset : UInt64) (limit : Option UInt64) {size : UInt64}
    (hsize : limit.getD total = size) :
    ∃ count number pages, shape rows total offset limit = ⟨rows, count, total, number, pages⟩ ∧
      count.toNat = rows.length ∧
      (size = 0 → number = 1 ∧ pages = 0) ∧
      (0 < size →
        IsLeast {n | total.toNat ≤ n * size.toNat} pages.toNat ∧
        ((∀ page, Holds size.toNat offset.toNat page ↔ page = number.toNat) ↔
          ¬ (size = 1 ∧ offset = maxWord)) ∧
        (size = 1 → offset = maxWord → number = 0)) := by
  subst hsize
  refine ⟨_, _, _, rfl, UInt64.toNat_ofNat_of_lt' hrows, ?empty, fun hsize => ?paged⟩
  case empty =>
    intro hempty
    rw [hempty]
    exact ⟨rfl, rfl⟩
  case paged =>
    have hpos : 0 < (limit.getD total).toNat := UInt64.lt_iff_toNat_lt.1 hsize
    refine ⟨?_, holds_numberOf_iff hpos, ?_⟩
    · rw [toNat_pagesOf hpos]
      exact isLeast_ceilDiv hpos _
    · rintro hone rfl
      rw [hone]
      rfl

/-- The largest numbers are on pages of two rows like any others. -/
theorem shape_counts_pairs :
    [(), ()].length < UInt64.size ∧ (some (2 : UInt64)).getD maxWord = 2 ∧
      ∃ count number pages,
        shape [(), ()] maxWord maxWord (some 2) = ⟨[(), ()], count, maxWord, number, pages⟩ ∧
        IsLeast {n | maxWord.toNat ≤ n * 2} pages.toNat ∧
        ∀ page, Holds 2 maxWord.toNat page ↔ page = number.toNat := by
  have hrows : [(), ()].length < UInt64.size := by decide
  obtain ⟨count, number, pages, hshape, -, -, hcounts⟩ :=
    shape_counts [(), ()] hrows maxWord maxWord (some 2) rfl
  obtain ⟨hpages, hnumber, -⟩ := hcounts (by decide)
  exact ⟨hrows, rfl, count, number, pages, hshape, hpages, hnumber.2 (by decide)⟩

/-- A request for the last page that can be asked for, with one row on a page. -/
def lastPage : Request where
  limit := some 1
  page := some maxWord

/-- No number of 64 bits is right for that page, and the number that it gets is 0. -/
theorem shape_counts_last :
    lastPage.start = maxWord ∧ (shape ([] : List Json) 3 lastPage.start lastPage.limit).number = 0 ∧
      ∀ number : UInt64, ¬ Holds 1 lastPage.start.toNat number.toNat := by
  have hstart : lastPage.start = maxWord := by decide
  refine ⟨hstart, by decide, fun number hholds => ?_⟩
  have hnumber := number.toNat_lt
  rw [hstart, toNat_maxWord, holds_iff Nat.one_pos, Nat.div_one] at hholds
  rw [hholds] at hnumber
  exact absurd hnumber (by decide)

end StoreQuery.Page
