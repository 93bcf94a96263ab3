import Mathlib.Data.List.Induction
import Mathlib.Data.List.Nodup
import Mathlib.Data.List.TakeWhile
import StoreQuery.Config.Builder
import StoreQuery.Proofs.Dict
import StoreQuery.Proofs.Success

/-!
# The order of settings

A configuration is put together by settings, one after the other, and each of them writes a part of
its own. What is disabled in the key-value table is written into the table, so it is lost where
there is none yet; everything else finds its place at once.

**Settings of different parts can change places, but for what is disabled in the table**
(`unswitched_apply_comm`, `unswitched_configure_perm`). That is what stands behind the naming of the
table (`disables_configure`).

**So two orders of the same settings have the same outcome exactly if the same is disabled behind
the naming of the table**, or if the configuration is not valid in any order (`build_perm`).
-/

namespace StoreQuery.Config

/-! ## Settings -/

/-- What can be disabled in a key-value table. -/
inductive Feature where
  | scan
  | count
  deriving DecidableEq

namespace Feature

/-- Whether a table has it disabled. -/
def disabledIn : Feature → KeyValue.Table → Bool
  | scan, t => t.disableScan
  | count, t => t.disableCount

/-- Disables it in a table, or enables it. -/
def setInTable (on : Bool) (t : KeyValue.Table) : Feature → KeyValue.Table
  | scan => { t with disableScan := on }
  | count => { t with disableCount := on }

/-- Disables it in a document store, or enables it, if that store can do without it. -/
def setInDocument (on : Bool) (d : Document.Settings) : Feature → Document.Settings
  | scan => d
  | count => { d with disableCount := on }

end Feature

/-- Disables or enables something in a configuration. -/
def withDisabled (c : Config) : Feature → Bool → Config
  | .scan, on => c.withScanDisabled on
  | .count, on => c.withCountDisabled on

/-- One setting of a configuration. -/
inductive Setting where
  | table (name partitionKey : String) (sortKey : Option String)
  | disable (feature : Feature) (on : Bool)
  | iLike (on : Bool)
  | entity (name : String) (entity : Sql.EntitySettings)
  | limits (limits : Limits)
  | logLevel (level : LogLevel)
  | debug (on : Bool)
  deriving DecidableEq

/-- The parts of a configuration that settings are about. Every entity is a part. -/
inductive Part where
  | table
  | feature (feature : Feature)
  | iLike
  | entity (name : String)
  | limits
  | logLevel
  | debug
  deriving DecidableEq

namespace Setting

/-- What a setting is about. -/
def part : Setting → Part
  | table .. => .table
  | disable feature _ => .feature feature
  | iLike _ => .iLike
  | entity name _ => .entity name
  | limits _ => .limits
  | logLevel _ => .logLevel
  | debug _ => .debug

/-- Changes a configuration. -/
def apply (c : Config) : Setting → Config
  | table name partitionKey sortKey => c.withTable name partitionKey sortKey
  | disable feature on => c.withDisabled feature on
  | iLike on => c.withILike on
  | entity name e => c.withEntity name e
  | limits l => c.withLimits l
  | logLevel level => c.withLogLevel level
  | debug on => c.withDebug on

end Setting

/-- The configuration that settings make, one after the other. -/
def configure (settings : List Setting) : Config := settings.foldl Setting.apply {}

/-- What comes of settings: a valid configuration, or what is wrong with it. -/
def build (settings : List Setting) : Except Error Config := (configure settings).finish

/-- The settings behind the one that names the table. -/
def behindTable (settings : List Setting) : List Setting :=
  (settings.dropWhile fun s => s.part ≠ .table).tail

/-- Whether something is disabled in the table, if there is one. -/
def disables (c : Config) (feature : Feature) : Bool := (c.table.map feature.disabledIn).getD false

variable {c c' : Config} {s s' : Setting} {settings settings' : List Setting} {feature : Feature}

theorem configure_append (settings : List Setting) (s : Setting) :
    configure (settings ++ [s]) = s.apply (configure settings) := by
  rw [configure, List.foldl_append]
  rfl

/-! ## Everything but what is disabled in the table -/

theorem withDisabled_eq (c : Config) (feature : Feature) (on : Bool) :
    c.withDisabled feature on =
      { c with
        document := feature.setInDocument on c.document
        table := c.table.map fun t => feature.setInTable on t } := by
  cases feature <;> rfl

/-- The configuration with nothing disabled in its table. -/
def unswitched (c : Config) : Config :=
  { c with table := c.table.map fun t => { t with disableScan := false, disableCount := false } }

/-- What is disabled in the table has no part in a setting. -/
theorem unswitched_apply (c : Config) (s : Setting) :
    (s.apply c.unswitched).unswitched = (s.apply c).unswitched := by
  obtain ⟨sql, document, table, limits, logLevel, debug⟩ := c
  cases table with
  | none => cases s <;> rfl
  | some t =>
    cases s with
    | disable feature on => cases feature <;> rfl
    | table | iLike | entity | limits | logLevel | debug => rfl

/-- **Settings of different parts can change places**, but for what is disabled in the table. -/
theorem unswitched_apply_comm (h : s.part ≠ s'.part) (c : Config) :
    (s'.apply (s.apply c)).unswitched = (s.apply (s'.apply c)).unswitched := by
  cases s <;> cases s' <;>
    simp only [Setting.part, ne_eq, not_true_eq_false, reduceCtorEq, not_false_eq_true] at h <;>
    simp only [Setting.apply, withDisabled_eq]
  case entity.entity name e name' e' =>
    have hne : name ≠ name' := fun hname => h (congrArg Part.entity hname)
    simp only [withEntity, Dict.insert_comm hne]
  case disable.disable feature on feature' on' =>
    obtain ⟨sql, document, table, limits, logLevel, debug⟩ := c
    cases feature <;> cases feature' <;> simp at h <;> cases table <;> rfl
  -- Whether the table is there by then shows in what it has disabled, and nowhere else.
  case table.disable feature _ | disable.table feature _ _ _ _ =>
    obtain ⟨sql, document, table, limits, logLevel, debug⟩ := c
    cases feature <;> cases table <;> rfl
  all_goals rfl

/-- Two orders of settings of different parts differ in what is disabled in the table at most. -/
theorem unswitched_configure_perm (hperm : settings'.Perm settings)
    (hparts : (settings.map Setting.part).Nodup) :
    (configure settings').unswitched = (configure settings).unswitched := by
  -- One setting after the other, and nothing disabled in between.
  have hfold : ∀ (settings : List Setting) (c : Config),
      (settings.foldl Setting.apply c).unswitched =
        settings.foldl (fun c s => (s.apply c).unswitched) c.unswitched := by
    intro settings
    induction settings with
    | nil => exact fun _ => rfl
    | cons s settings ih =>
      intro c
      rw [List.foldl_cons, List.foldl_cons, ih, unswitched_apply]
  rw [configure, configure, hfold, hfold]
  refine (hperm.symm.foldl_eq' (fun s hs s' hs' c => ?_) _).symm
  rw [unswitched_apply, unswitched_apply]
  by_cases hsame : s = s'
  · rw [hsame]
  · have hapart : s.part ≠ s'.part := fun hpart =>
      hsame (List.inj_on_of_nodup_map hparts hs hs' hpart)
    exact unswitched_apply_comm hapart c

/-! ## What is disabled in the table -/

theorem nodup_parts_append : ((settings ++ [s]).map Setting.part).Nodup ↔
    s.part ∉ settings.map Setting.part ∧ (settings.map Setting.part).Nodup := by
  rw [List.map_append, List.map_singleton, List.nodup_append_comm, List.singleton_append,
    List.nodup_cons]

theorem behindTable_append (settings : List Setting) (s : Setting) :
    behindTable (settings ++ [s]) =
      if .table ∈ settings.map Setting.part then behindTable settings ++ [s] else [] := by
  induction settings with
  | nil => by_cases hs : s.part = .table <;> simp [behindTable, hs]
  | cons s' settings ih =>
    by_cases hs' : s'.part = .table
    · simp [behindTable, hs']
    · have hne : Part.table ≠ s'.part := fun h => hs' h.symm
      simp only [behindTable, ne_eq, List.cons_append, hs', not_false_eq_true, decide_true,
        List.dropWhile_cons_of_pos, List.map_cons, List.mem_cons, hne, false_or] at ih ⊢
      exact ih

theorem behindTable_eq_nil (h : .table ∉ settings.map Setting.part) :
    behindTable settings = [] := by
  have hall : settings.dropWhile (fun s => s.part ≠ .table) = [] := by
    refine List.dropWhile_eq_nil_iff.2 fun s hs => decide_eq_true fun htable => ?_
    exact h (List.mem_map.2 ⟨s, hs, htable⟩)
  rw [behindTable, hall, List.tail_nil]

theorem mem_of_mem_behindTable (h : s ∈ behindTable settings) : s ∈ settings :=
  (List.dropWhile_subset _) (List.mem_of_mem_tail h)

theorem isSome_table_configure (settings : List Setting) :
    (configure settings).table.isSome ↔ .table ∈ settings.map Setting.part := by
  induction settings using List.reverseRecOn with
  | nil => simp [configure]
  | append_singleton settings s ih =>
    rw [configure_append, List.map_append, List.mem_append, ← ih]
    cases s <;> simp [Setting.apply, Setting.part, withTable, withDisabled_eq, withILike,
      withEntity, withLimits, withLogLevel, withDebug]

theorem disables_apply (h : s.part ≠ .feature feature) (c : Config) :
    (s.apply c).disables feature = c.disables feature := by
  obtain ⟨sql, document, table, limits, logLevel, debug⟩ := c
  cases s with
  | table => cases table <;> cases feature <;> rfl
  | disable feature' on =>
    cases feature <;> cases feature' <;> simp [Setting.part] at h <;> cases table <;> rfl
  | iLike | entity | limits | logLevel | debug => rfl

theorem disables_disable (c : Config) (feature : Feature) (on : Bool) :
    ((Setting.disable feature on).apply c).disables feature = (c.table.isSome && on) := by
  obtain ⟨sql, document, table, limits, logLevel, debug⟩ := c
  cases table <;> cases feature <;> rfl

/-- **What is disabled in the table** is what a setting behind its naming disables. -/
theorem disables_configure (hparts : (settings.map Setting.part).Nodup) (feature : Feature) :
    (configure settings).disables feature = true ↔
      .disable feature true ∈ behindTable settings := by
  induction settings using List.reverseRecOn with
  | nil => simp [configure, disables, behindTable]
  | append_singleton settings s ih =>
    obtain ⟨hnew, hbefore⟩ := nodup_parts_append.1 hparts
    specialize ih hbefore
    rw [configure_append, behindTable_append]
    by_cases hs : s.part = .feature feature
    · obtain ⟨on, rfl⟩ : ∃ on, s = .disable feature on := by
        cases s <;> cases hs
        exact ⟨_, rfl⟩
      -- No setting before this one is about the same thing.
      have hnone : .disable feature true ∉ behindTable settings :=
        fun h => hnew (List.mem_map.2 ⟨_, mem_of_mem_behindTable h, rfl⟩)
      rw [disables_disable, Bool.and_eq_true, isSome_table_configure]
      by_cases htable : .table ∈ settings.map Setting.part
      · simp only [htable, if_true, List.mem_append, List.mem_singleton, hnone, false_or, true_and,
          Setting.disable.injEq]
        exact eq_comm
      · simp [htable]
    · rw [disables_apply hs, ih]
      have hne : s ≠ .disable feature true := fun h => hs (h ▸ rfl)
      split
      case isTrue => simp [hne.symm]
      case isFalse htable => rw [behindTable_eq_nil htable]

theorem disableCount_configure (hparts : (settings.map Setting.part).Nodup) :
    (configure settings).document.disableCount = true ↔ .disable .count true ∈ settings := by
  induction settings using List.reverseRecOn with
  | nil => simp [configure]
  | append_singleton settings s ih =>
    obtain ⟨hnew, hbefore⟩ := nodup_parts_append.1 hparts
    specialize ih hbefore
    rw [configure_append, List.mem_append, List.mem_singleton]
    cases s with
    | disable feature on =>
      cases feature with
      | scan => simpa [Setting.apply, withDisabled, withScanDisabled] using ih
      | count =>
        have hnone : .disable .count true ∉ settings := fun h =>
          hnew (List.mem_map.2 ⟨_, h, rfl⟩)
        simp [Setting.apply, withDisabled, withCountDisabled, hnone, eq_comm]
    | table | iLike | entity | limits | logLevel | debug =>
      simpa [Setting.apply, withTable, withILike, withEntity, withLimits, withLogLevel,
        withDebug] using ih

/-! ## Outcomes -/

theorem fault?_unswitched (c : Config) : c.unswitched.fault? = c.fault? := by
  obtain ⟨sql, document, table, limits, logLevel, debug⟩ := c
  cases table <;> rfl

/-- A configuration is known by what is disabled in its table and everything else. -/
theorem eq_of_unswitched (h : c.unswitched = c'.unswitched)
    (hdisables : ∀ feature, c.disables feature = c'.disables feature) : c = c' := by
  obtain ⟨sql, document, table, limits, logLevel, debug⟩ := c
  obtain ⟨sql', document', table', limits', logLevel', debug'⟩ := c'
  obtain ⟨hscan, hcount⟩ := And.intro (hdisables .scan) (hdisables .count)
  cases table with
  | none => cases table' <;> simp_all [unswitched]
  | some t =>
    cases table' with
    | none => simp [unswitched] at h
    | some t' =>
      obtain ⟨name, partitionKey, sortKey, scan, count⟩ := t
      obtain ⟨name', partitionKey', sortKey', scan', count'⟩ := t'
      simp only [disables, Feature.disabledIn, Option.map_some, Option.getD_some] at hscan hcount
      simp only [unswitched, Option.map_some, mk.injEq, Option.some.injEq, KeyValue.Table.mk.injEq,
        and_true] at h ⊢
      exact ⟨h.1, h.2.1, ⟨h.2.2.1.1, h.2.2.1.2.1, h.2.2.1.2.2, hscan, hcount⟩, h.2.2.2⟩

theorem build_eq (settings : List Setting) :
    build settings = match (configure settings).fault? with
      | some fault => .error (.config fault)
      | none => .ok (configure settings) := by
  rw [build, finish, validate]
  cases (configure settings).fault? <;> rfl

theorem eq_configure_of_build (h : build settings = .ok c) : c = configure settings := by
  rw [build_eq] at h
  cases hfault : (configure settings).fault? with
  | some fault => rw [hfault] at h; cases h
  | none => rw [hfault] at h; exact (Except.ok.inj h).symm

/-- Two orders of the same settings have the same outcome exactly if the configuration is not valid,
or the same is disabled behind the naming of the table. -/
theorem build_eq_iff (hperm : settings'.Perm settings)
    (hparts : (settings.map Setting.part).Nodup) :
    build settings' = build settings ↔ (∃ e, build settings = .error e) ∨
      ∀ feature, .disable feature true ∈ behindTable settings' ↔
        .disable feature true ∈ behindTable settings := by
  have hparts' : (settings'.map Setting.part).Nodup := (hperm.map _).nodup_iff.2 hparts
  have hsame := unswitched_configure_perm hperm hparts
  have hfault : (configure settings').fault? = (configure settings).fault? := by
    rw [← fault?_unswitched, hsame, fault?_unswitched]
  rw [build_eq settings', build_eq settings, hfault]
  cases (configure settings).fault? with
  | some fault => exact ⟨fun _ => .inl ⟨_, rfl⟩, fun _ => rfl⟩
  | none =>
    simp only [Except.ok.injEq, reduceCtorEq, exists_false, false_or, ← disables_configure hparts,
      ← disables_configure hparts', ← Bool.eq_iff_iff]
    exact ⟨fun h _ => h ▸ rfl, eq_of_unswitched hsame⟩

theorem not_mem_of_behindTable (hparts : (settings.map Setting.part).Nodup)
    (htable : .table ∈ settings.map Setting.part)
    (h : ∀ settings', settings'.Perm settings →
      (.disable feature true ∈ behindTable settings' ↔
        .disable feature true ∈ behindTable settings)) :
    .disable feature true ∉ settings := by
  intro hmem
  obtain ⟨t, ht, hpart⟩ := List.mem_map.1 htable
  have hne : .disable feature true ≠ t := fun h => by cases h; cases hpart
  obtain ⟨before, behind, rfl⟩ := List.append_of_mem ht
  -- The table can be named before everything else, and behind it.
  have hfirst : behindTable (t :: (before ++ behind)) = before ++ behind := by
    simp [behindTable, hpart]
  have hlast : behindTable (before ++ behind ++ [t]) = [] := by
    rw [behindTable_append, if_neg]
    have hnodup := ((List.perm_middle.map Setting.part).nodup_iff.1 hparts)
    rw [List.map_cons, hpart, List.nodup_cons] at hnodup
    exact hnodup.1
  have hsame := (h _ List.perm_middle.symm).trans
    (h _ ((List.perm_append_singleton t _).trans List.perm_middle.symm)).symm
  rw [hfirst, hlast] at hsame
  have hrest := List.mem_of_ne_of_mem hne (List.perm_middle.mem_iff.1 hmem)
  exact List.not_mem_nil (hsame.1 hrest)

/-- **What the order of settings means.** Settings about different parts, one of which names the
table, have the same outcome in two orders exactly if the configuration is not valid, or the
same is disabled behind the naming of the table. So they have one outcome in all orders exactly
if it is not valid, or nothing is disabled at all. In a valid configuration, the table has
disabled what is disabled behind its naming, and the document store does without counting if
that is said anywhere. -/
theorem build_perm (hparts : (settings.map Setting.part).Nodup)
    (htable : .table ∈ settings.map Setting.part) :
    (∀ settings', settings'.Perm settings →
      (build settings' = build settings ↔ (∃ e, build settings = .error e) ∨
        ∀ feature, .disable feature true ∈ behindTable settings' ↔
          .disable feature true ∈ behindTable settings)) ∧
    ((∀ settings', settings'.Perm settings → build settings' = build settings) ↔
      (∃ e, build settings = .error e) ∨ ∀ feature, .disable feature true ∉ settings) ∧
    ∀ c, build settings = .ok c → ∃ t, c.table = some t ∧
      (∀ feature, feature.disabledIn t = true ↔ .disable feature true ∈ behindTable settings) ∧
      (c.document.disableCount = true ↔ .disable .count true ∈ settings) := by
  refine ⟨fun settings' hperm => build_eq_iff hperm hparts, ⟨fun h => ?_, fun h => ?_⟩, ?_⟩
  · by_cases herror : ∃ e, build settings = .error e
    · exact .inl herror
    · refine .inr fun feature => not_mem_of_behindTable hparts htable fun settings' hperm => ?_
      exact ((build_eq_iff hperm hparts).1 (h settings' hperm)).resolve_left herror feature
  · intro settings' hperm
    refine (build_eq_iff hperm hparts).2 (h.imp_right fun hnone feature => ?_)
    have hnone' : .disable feature true ∉ settings' := fun h => hnone feature (hperm.mem_iff.1 h)
    exact iff_of_false (hnone' ∘ mem_of_mem_behindTable) (hnone feature ∘ mem_of_mem_behindTable)
  · intro c hc
    cases eq_configure_of_build hc
    obtain ⟨t, ht⟩ := Option.isSome_iff_exists.1 ((isSome_table_configure settings).2 htable)
    refine ⟨t, ht, fun feature => ?_, disableCount_configure hparts⟩
    rw [← disables_configure hparts, disables, ht]
    rfl

/-- Where counting is disabled before the table is named and scans behind it, the table has scans
disabled alone, and the other way round in the reverse order. -/
theorem build_perm_both_sides :
    let settings : List Setting := [.entity "posts" {}, .disable .count true,
      .table "posts" "id" none, .disable .scan true, .limits ⟨some 10, some 100⟩]
    (settings.map Setting.part).Nodup ∧ .table ∈ settings.map Setting.part ∧
      build settings.reverse ≠ build settings ∧
      ∃ c t, build settings = .ok c ∧ c.table = some t ∧ t.disableScan = true ∧
        t.disableCount = false ∧ c.document.disableCount = true := by
  intro settings
  have hparts : (settings.map Setting.part).Nodup := by decide
  have htable : .table ∈ settings.map Setting.part := by decide
  obtain ⟨horder, -, hvalid⟩ := build_perm hparts htable
  obtain ⟨c, hc⟩ : ∃ c, build settings = .ok c := ⟨_, rfl⟩
  obtain ⟨t, ht, hdisabled, hcount⟩ := hvalid c hc
  refine ⟨hparts, htable, fun h => ?_, c, t, hc, ht, (hdisabled .scan).2 (by decide), ?_,
    hcount.2 (by decide)⟩
  · obtain ⟨e, he⟩ | hsame := (horder _ (List.reverse_perm _)).1 h
    · cases hc.symm.trans he
    · exact absurd ((hsame .scan).2 (by decide)) (by decide)
  · exact Bool.eq_false_iff.2 fun h => absurd ((hdisabled .count).1 h) (by decide)

/-- Scans that are disabled before the table is named are not disabled, as they are behind it. -/
theorem build_perm_lost :
    ∃ c c', build [.disable .scan true, .table "posts" "id" none] = .ok c ∧
      build [.table "posts" "id" none, .disable .scan true] = .ok c' ∧
      c.disables .scan = false ∧ c'.disables .scan = true :=
  ⟨_, _, rfl, rfl, rfl, rfl⟩

end StoreQuery.Config
