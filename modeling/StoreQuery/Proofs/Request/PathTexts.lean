import StoreQuery.KeyValue.Compile
import StoreQuery.Proofs.Request.Canonical
import StoreQuery.Request.Restrict

/-!
# Paths compared by their texts

A path goes out as a text and comes in as one. Nothing of a text is lost on the way in, and nothing
of a canonical path on the way out; what is put together from canonical paths is canonical again
(`Path.Canonical.join`).

So it makes no difference which side of the way is compared. A list of allowed texts allows a
canonical path exactly if one of them is read as this path (`Request.allows_iff`), and a path is a
key of a table exactly if its text is the name of the key (`KeyValue.Table.partitionPath_eq_iff`,
`KeyValue.Table.sortPath_eq_iff`).
-/

namespace StoreQuery

namespace Path

variable {p q : Path}

theorem Canonical.join (hp : p.Canonical) (hq : q.Canonical) : (p.join q).Canonical := by
  obtain ⟨hne, hdotless⟩ := canonical_iff.1 hp
  obtain ⟨-, hdotless'⟩ := canonical_iff.1 hq
  refine canonical_iff.2 ⟨List.append_ne_nil_of_left_ne_nil hne _, ?_⟩
  intro s hs
  rcases List.mem_append.1 hs with hs | hs
  · exact hdotless s hs
  · exact hdotless' s hs

/-- The way out and the way in are inverse to each other on canonical paths. -/
theorem Canonical.ofText_eq_iff (hp : p.Canonical) {text : String} :
    ofText text = p ↔ text = p.toText := by
  constructor
  · rintro rfl
    exact (toText_ofText text).symm
  · rintro rfl
    exact hp

theorem Canonical.toText_eq_iff (hp : p.Canonical) (hq : q.Canonical) :
    p.toText = q.toText ↔ p.segments = q.segments := by
  constructor
  · intro h
    rw [hp.eq_of_toText hq h]
  · intro h
    rw [toText, toText, h]

theorem startsWith_join (p q : Path) : (p.join q).startsWith p.segments = true := by
  rw [startsWith, List.isPrefixOf_iff_prefix]
  exact List.prefix_append p.segments q.segments

theorem hasBase_join (p q : Path) : (p.join q).hasBase p.segments = true ↔ q.length = 1 := by
  rw [hasBase, startsWith_join, Bool.and_true, decide_eq_true_eq, Path.join, List.length_append,
    Nat.add_left_cancel_iff, length]

theorem base_join (h : q.length = 1) : (p.join q).base = p.segments := by
  obtain ⟨segment, hsegment⟩ := List.length_eq_one_iff.1 h
  rw [base, Path.join, hsegment, List.dropLast_concat]

end Path

/-- **A list of allowed texts allows what its texts are read as.** -/
theorem Request.allows_iff {p : Path} (hp : p.Canonical) (allowed : List String) :
    allows allowed p = true ↔ ∃ text ∈ allowed, (Path.ofText text).segments = p.segments := by
  rw [allows, List.contains_iff_mem]
  constructor
  · intro h
    exact ⟨p.toText, h, congrArg Path.segments hp⟩
  · rintro ⟨text, hmem, hsegments⟩
    rwa [← hp.ofText_eq_iff.1 (congrArg Path.mk hsegments)]

namespace KeyValue.Table

variable {t : Table} {p : Path}

theorem partitionPath_eq_iff (hp : p.Canonical) :
    p = t.partitionPath ↔ p.toText = t.partitionKey := by
  rw [eq_comm, partitionPath, hp.ofText_eq_iff, eq_comm]

theorem sortPath_eq_iff (hp : p.Canonical) :
    t.sortPath = some p ↔ t.sortKey = some p.toText := by
  rw [sortPath, Option.map_eq_some_iff]
  simp only [hp.ofText_eq_iff, exists_eq_right]

end KeyValue.Table

namespace Path

/-- **Dotted texts are faithful to paths.** A text is read as a path that has this text, and a path
is what its text is read as exactly if it has segments, none of which holds a dot. Such paths are
put together to such a path. They can be compared by their texts and by their segments alike: with
each other, with the entries of a list of allowed texts, and with the keys of a table. -/
theorem texts_faithful :
    (∀ text, (ofText text).toText = text) ∧
      (∀ p, ofText p.toText = p ↔ p.segments ≠ [] ∧ ∀ s ∈ p.segments, '.' ∉ s.toList) ∧
      (∀ p q : Path, p.Canonical → q.Canonical →
        ofText (p.join q).toText = p.join q ∧
          (p.join q).startsWith p.segments = true ∧
          ((p.join q).hasBase p.segments = true ↔ q.length = 1) ∧
          (q.length = 1 → (p.join q).base = p.segments) ∧
          (p.toText = q.toText ↔ p.segments = q.segments)) ∧
      (∀ p : Path, p.Canonical →
        (∀ allowed, Request.allows allowed p = true ↔
          ∃ text ∈ allowed, (ofText text).segments = p.segments) ∧
        ∀ t : KeyValue.Table, (p = t.partitionPath ↔ p.toText = t.partitionKey) ∧
          (t.sortPath = some p ↔ t.sortKey = some p.toText)) := by
  refine ⟨toText_ofText, fun p => canonical_iff, ?_, ?_⟩
  · intro p q hp hq
    exact ⟨hp.join hq, startsWith_join p q, hasBase_join p q, base_join, hp.toText_eq_iff hq⟩
  · intro p hp
    refine ⟨Request.allows_iff hp, fun t => ?_⟩
    exact ⟨KeyValue.Table.partitionPath_eq_iff hp, KeyValue.Table.sortPath_eq_iff hp⟩

/-- Two segments and one more, and one segment that could be taken for two. -/
theorem texts_faithful_nested :
    ofText ((⟨["a", "b"]⟩ : Path).join ⟨["c"]⟩).toText = ⟨["a", "b", "c"]⟩ ∧
      ((⟨["a", "b"]⟩ : Path).join ⟨["c"]⟩).hasBase ["a", "b"] = true ∧
      Request.allows ["x", "a.b"] ⟨["a", "b"]⟩ = true ∧
      ofText (⟨["a.b"]⟩ : Path).toText ≠ ⟨["a.b"]⟩ := by
  obtain ⟨-, hcanonical, htwo, hone⟩ := texts_faithful
  have hab : (⟨["a", "b"]⟩ : Path).Canonical := (hcanonical _).2 (by decide)
  have hc : (⟨["c"]⟩ : Path).Canonical := (hcanonical _).2 (by decide)
  obtain ⟨hjoin, -, hbase, -, -⟩ := htwo _ _ hab hc
  refine ⟨hjoin, hbase.2 rfl, ((hone _ hab).1 _).2 ?_, mt (hcanonical _).1 (by decide)⟩
  exact ⟨"a.b", by decide, by decide⟩

end Path

end StoreQuery
