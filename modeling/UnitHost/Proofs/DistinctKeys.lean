import UnitHost.Toml.Document
import Mathlib.Data.List.Nodup

/-!
# No key twice

Whatever is read from a document, no table in it has a key twice, at any depth. `Entries.alter_distinct` says so of the
one operation that changes a table; going down a path, opening tables and adding values are built from it, and lines and
documents from these.
-/

namespace UnitHost.Toml

/-- No table in a value has a key twice. -/
inductive Value.Distinct : Value → Prop where
  | string (text : String) : Distinct (.string text)
  | integer (n : Int) : Distinct (.integer n)
  | float (text : String) : Distinct (.float text)
  | boolean (b : Bool) : Distinct (.boolean b)
  | datetime (text : String) : Distinct (.datetime text)
  | array {items : List Value} (each : ∀ v ∈ items, v.Distinct) : Distinct (.array items)
  | table {entries : Table} (keys : (entries.map Prod.fst).Nodup) (each : ∀ e ∈ entries, e.2.Distinct) :
      Distinct (.table entries)

/-- No table in a part of a document has a key twice. -/
inductive Node.Distinct : Node → Prop where
  | value {v : Value} (distinct : v.Distinct) : Distinct (.value v)
  | table {implied dotted : Bool} {entries : Entries} (keys : (entries.map Prod.fst).Nodup)
      (each : ∀ e ∈ entries, e.2.Distinct) : Distinct (.table implied dotted entries)
  | tables {items : List Entries} (keys : ∀ entries ∈ items, (entries.map Prod.fst).Nodup)
      (each : ∀ entries ∈ items, ∀ e ∈ entries, e.2.Distinct) : Distinct (.tables items)

namespace Entries

/-- No key twice, here or in what stands under the keys. -/
structure Distinct (entries : Entries) : Prop where
  keys : (entries.map Prod.fst).Nodup
  each : ∀ e ∈ entries, e.2.Distinct

theorem distinct_nil : Distinct [] := ⟨List.nodup_nil, nofun⟩

theorem distinct_table_iff {entries : Entries} {implied dotted : Bool} :
    (Node.table implied dotted entries).Distinct ↔ entries.Distinct := by
  constructor
  · rintro (_ | ⟨keys, each⟩)
    exact ⟨keys, each⟩
  · intro h
    exact .table h.keys h.each

theorem distinct_tables_iff {items : List Entries} :
    (Node.tables items).Distinct ↔ ∀ entries ∈ items, entries.Distinct := by
  constructor
  · rintro (_ | _ | ⟨keys, each⟩) entries mem
    exact ⟨keys entries mem, each entries mem⟩
  · intro h
    exact .tables (fun entries mem => (h entries mem).keys) fun entries mem => (h entries mem).each

theorem distinct_tables_cons {latest : Entries} {earlier : List Entries} :
    (Node.tables (latest :: earlier)).Distinct ↔ latest.Distinct ∧ (Node.tables earlier).Distinct := by
  rw [distinct_tables_iff, distinct_tables_iff, List.forall_mem_cons]

variable {key : String} {f : Option Node → Option Node} {entries entries' : Entries}

/-- The keys after a change: the same, or one more that is new. -/
theorem alter_keys (h : alter key f entries = some entries') :
    entries'.map Prod.fst = entries.map Prod.fst ∨
      key ∉ entries.map Prod.fst ∧ entries'.map Prod.fst = entries.map Prod.fst ++ [key] := by
  induction entries generalizing entries' with
  | nil =>
    obtain ⟨n, -, rfl⟩ := Option.map_eq_some_iff.1 h
    exact .inr ⟨List.not_mem_nil, rfl⟩
  | cons e rest ih =>
    obtain ⟨other, n⟩ := e
    unfold alter at h
    split at h
    · rename_i same
      obtain ⟨new, -, rfl⟩ := Option.map_eq_some_iff.1 h
      have same : other = key := by simpa using same
      exact .inl (by rw [same]; rfl)
    · rename_i differs
      obtain ⟨changed, altered, rfl⟩ := Option.map_eq_some_iff.1 h
      have differs : key ≠ other := fun same => differs (by simp [same])
      rcases ih altered with same | ⟨new, more⟩
      · exact .inl (by simp [same])
      · exact .inr ⟨by simpa [differs] using new, by simp [more]⟩

/-- What stands under a key after a change stood there before, or was made of it. -/
theorem alter_each (h : alter key f entries = some entries') {e : String × Node} (mem : e ∈ entries') :
    e ∈ entries ∨ f none = some e.2 ∨ ∃ old ∈ entries, f (some old.2) = some e.2 := by
  induction entries generalizing entries' with
  | nil =>
    obtain ⟨n, made, rfl⟩ := Option.map_eq_some_iff.1 h
    rw [List.mem_singleton.1 mem]
    exact .inr (.inl made)
  | cons first rest ih =>
    obtain ⟨other, n⟩ := first
    unfold alter at h
    split at h
    · obtain ⟨new, made, rfl⟩ := Option.map_eq_some_iff.1 h
      rcases List.mem_cons.1 mem with rfl | later
      · exact .inr (.inr ⟨(other, n), List.mem_cons_self, made⟩)
      · exact .inl (List.mem_cons_of_mem _ later)
    · obtain ⟨changed, altered, rfl⟩ := Option.map_eq_some_iff.1 h
      rcases List.mem_cons.1 mem with rfl | later
      · exact .inl List.mem_cons_self
      · rcases ih altered later with kept | made | ⟨old, mem, made⟩
        · exact .inl (List.mem_cons_of_mem _ kept)
        · exact .inr (.inl made)
        · exact .inr (.inr ⟨old, List.mem_cons_of_mem _ mem, made⟩)

theorem alter_distinct (distinct : entries.Distinct) (fresh : ∀ n, f none = some n → n.Distinct)
    (kept : ∀ old n, old.Distinct → f (some old) = some n → n.Distinct) (h : alter key f entries = some entries') :
    entries'.Distinct := by
  constructor
  · rcases alter_keys h with same | ⟨new, more⟩
    · rw [same]
      exact distinct.keys
    · rw [more, ← List.concat_eq_append]
      exact distinct.keys.concat new
  · intro e mem
    rcases alter_each h mem with same | made | ⟨old, mem, made⟩
    · exact distinct.each e same
    · exact fresh e.2 made
    · exact kept old.2 e.2 (distinct.each old mem) made

/-- A change at the end of a path keeps keys distinct if it keeps those of the table there distinct. -/
theorem descend_distinct {g : Entries → Option Entries}
    (keeps : ∀ {inner inner' : Entries}, inner.Distinct → g inner = some inner' → inner'.Distinct) (path : List String)
    (distinct : entries.Distinct) (h : descend g path entries = some entries') : entries'.Distinct := by
  induction path generalizing entries entries' with
  | nil => exact keeps distinct h
  | cons key path ih =>
    refine alter_distinct distinct (fun n made => ?_) (fun old n before made => ?_) h
    · obtain ⟨inner, below, rfl⟩ := Option.map_eq_some_iff.1 made
      exact distinct_table_iff.2 (ih distinct_nil below)
    · split at made
      · contradiction
      · rename_i same
        cases same
        obtain ⟨inner, below, rfl⟩ := Option.map_eq_some_iff.1 made
        exact distinct_table_iff.2 (ih (distinct_table_iff.1 before) below)
      · rename_i latest earlier same
        cases same
        obtain ⟨inner, below, rfl⟩ := Option.map_eq_some_iff.1 made
        have parts := distinct_tables_cons.1 before
        exact distinct_tables_cons.2 ⟨ih parts.1 below, parts.2⟩
      all_goals contradiction

theorem openTable_distinct {path : List String} (distinct : entries.Distinct)
    (h : openTable path entries = some entries') : entries'.Distinct := by
  unfold openTable at h
  split at h
  · cases h
  · refine descend_distinct (fun before changed => ?_) _ distinct h
    refine alter_distinct before (fun n made => ?_) (fun old n same made => ?_) changed
    · cases made
      exact distinct_table_iff.2 distinct_nil
    · split at made
      · contradiction
      · rename_i found
        cases found
        cases made
        exact distinct_table_iff.2 (distinct_table_iff.1 same)
      · cases made

theorem openArray_distinct {path : List String} (distinct : entries.Distinct)
    (h : openArray path entries = some entries') : entries'.Distinct := by
  unfold openArray at h
  split at h
  · cases h
  · refine descend_distinct (fun before changed => ?_) _ distinct h
    refine alter_distinct before (fun n made => ?_) (fun old n same made => ?_) changed
    · cases made
      exact distinct_tables_cons.2 ⟨distinct_nil, distinct_tables_iff.2 nofun⟩
    · split at made
      · contradiction
      · rename_i found
        cases found
        cases made
        exact distinct_tables_cons.2 ⟨distinct_nil, same⟩
      · cases made

theorem add_distinct {v : Value} (value : v.Distinct) (path : List String) (distinct : entries.Distinct)
    (h : add v path entries = some entries') : entries'.Distinct := by
  induction path generalizing entries entries' with
  | nil => cases h
  | cons key path ih =>
    cases path with
    | nil =>
      refine alter_distinct distinct (fun n made => ?_) (fun old n before made => ?_) h
      · cases made
        exact .value value
      · cases made
    | cons next path =>
      refine alter_distinct distinct (fun n made => ?_) (fun old n before made => ?_) h
      · obtain ⟨inner, below, rfl⟩ := Option.map_eq_some_iff.1 made
        exact distinct_table_iff.2 (ih distinct_nil below)
      · split at made
        · contradiction
        · rename_i same
          cases same
          split at made
          · obtain ⟨inner, below, rfl⟩ := Option.map_eq_some_iff.1 made
            exact distinct_table_iff.2 (ih (distinct_table_iff.1 before) below)
          · cases made
        · rename_i same
          cases same
          split at made
          · obtain ⟨inner, below, rfl⟩ := Option.map_eq_some_iff.1 made
            have parts := distinct_tables_cons.1 before
            exact distinct_tables_cons.2 ⟨ih parts.1 below, parts.2⟩
          · cases made
        all_goals contradiction

end Entries

/-! Finished parts of a document. -/

theorem Node.finish_eq_map (entries : Entries) :
    Node.toValue.finish entries = entries.map fun e => (e.1, e.2.toValue) := by
  induction entries with
  | nil => rfl
  | cons e rest ih =>
    rw [List.map_cons, ← ih]
    rfl

theorem Node.mem_tables {items : List Entries} {done : List Value} {v : Value}
    (mem : v ∈ Node.toValue.tables items done) :
    v ∈ done ∨ ∃ entries ∈ items, v = .table (Node.toValue.finish entries) := by
  induction items generalizing done with
  | nil => exact .inl mem
  | cons entries rest ih =>
    rcases ih mem with before | ⟨later, mem, same⟩
    · rcases List.mem_cons.1 before with same | before
      · exact .inr ⟨entries, List.mem_cons_self, same⟩
      · exact .inl before
    · exact .inr ⟨later, List.mem_cons_of_mem _ mem, same⟩

theorem Node.finish_distinct {entries : Entries} (keys : (entries.map Prod.fst).Nodup)
    (each : ∀ e ∈ entries, e.2.toValue.Distinct) : (Value.table (Node.toValue.finish entries)).Distinct := by
  rw [finish_eq_map]
  refine .table ?_ fun e mem => ?_
  · rw [List.map_map]
    exact keys
  · obtain ⟨old, before, rfl⟩ := List.mem_map.1 mem
    exact each old before

theorem Node.Distinct.toValue {n : Node} (distinct : n.Distinct) : n.toValue.Distinct := by
  induction distinct with
  | value distinct => exact distinct
  | table keys each ih => exact finish_distinct keys ih
  | tables keys each ih =>
    refine .array fun v mem => ?_
    rcases mem_tables mem with done | ⟨entries, among, rfl⟩
    · cases done
    · exact finish_distinct (keys entries among) (ih entries among)

/-! Reading. -/

theorem scalar?_distinct {word : List Char} {v : Value} (h : scalar? word = some v) : v.Distinct := by
  unfold scalar? at h
  repeat' split at h
  all_goals cases h
  · exact .boolean true
  · exact .boolean false
  · exact .datetime _
  · exact .integer _
  · exact .float _

/-- Values, the items of arrays and the pairs of inline tables, with the same fuel. -/
theorem take_distinct (fuel : Nat) :
    (∀ {depth chars v rest}, takeValue? fuel depth chars = some (v, rest) → v.Distinct) ∧
    (∀ {depth done chars v rest}, (∀ w ∈ done, w.Distinct) → takeItems? fuel depth done chars = some (v, rest) →
      v.Distinct) ∧
    ∀ {depth entries chars v rest}, entries.Distinct → takePairs? fuel depth entries chars = some (v, rest) →
      v.Distinct := by
  induction fuel with
  | zero => exact ⟨nofun, fun _ => nofun, fun _ => nofun⟩
  | succ fuel ih =>
    -- The three readers call one another, each time with less fuel.
    obtain ⟨value, items, pairs⟩ := ih
    refine ⟨fun h => ?_, fun {_ done _ _ _} before h => ?_, fun {_ entries _ _ _} before h => ?_⟩
    · unfold takeValue? at h
      split at h
      · cases h
      · cases h
      · exact items (List.forall_mem_nil _) h
      · split at h
        · cases h
          exact .table List.nodup_nil nofun
        · exact pairs Entries.distinct_nil h
      · obtain ⟨found, -, same⟩ := Option.map_eq_some_iff.1 h
        cases same
        exact .string _
      · obtain ⟨found, -, same⟩ := Option.map_eq_some_iff.1 h
        cases same
        exact .string _
      · obtain ⟨v', read, same⟩ := Option.map_eq_some_iff.1 h
        cases same
        exact scalar?_distinct read
    · have closed {done : List Value} (each : ∀ w ∈ done, w.Distinct) : (Value.array done.reverse).Distinct :=
        .array fun w mem => each w (List.mem_reverse.1 mem)
      unfold takeItems? at h
      split at h
      · cases h
        exact closed before
      · obtain ⟨⟨v, rest⟩, first, h⟩ := Option.bind_eq_some_iff.1 h
        have more : ∀ w ∈ v :: done, w.Distinct := List.forall_mem_cons.2 ⟨value first, before⟩
        dsimp only at h
        split at h
        · exact items more h
        · cases h
          exact closed more
        · cases h
    · unfold takePairs? at h
      obtain ⟨⟨key, rest⟩, -, h⟩ := Option.bind_eq_some_iff.1 h
      dsimp only at h
      split at h
      · obtain ⟨⟨v, rest⟩, first, h⟩ := Option.bind_eq_some_iff.1 h
        obtain ⟨added, add, h⟩ := Option.bind_eq_some_iff.1 h
        have more : added.Distinct := Entries.add_distinct (value first) key before add
        split at h
        · exact pairs more h
        · cases h
          exact (Entries.distinct_table_iff.2 more).toValue
        · cases h
      · cases h

theorem Reading.line?_distinct {r r' : Reading} {chars rest : List Char} (distinct : r.entries.Distinct)
    (h : r.line? chars = some (r', rest)) : r'.entries.Distinct := by
  unfold line? at h
  split at h
  · obtain ⟨⟨path, rest⟩, -, h⟩ := Option.bind_eq_some_iff.1 h
    dsimp only at h
    split at h
    · obtain ⟨opened, open_, h⟩ := Option.bind_eq_some_iff.1 h
      obtain ⟨rest, -, h⟩ := Option.bind_eq_some_iff.1 h
      cases h
      exact Entries.openArray_distinct distinct open_
    · cases h
  · obtain ⟨⟨path, rest⟩, -, h⟩ := Option.bind_eq_some_iff.1 h
    dsimp only at h
    split at h
    · obtain ⟨opened, open_, h⟩ := Option.bind_eq_some_iff.1 h
      obtain ⟨rest, -, h⟩ := Option.bind_eq_some_iff.1 h
      cases h
      exact Entries.openTable_distinct distinct open_
    · cases h
  · obtain ⟨⟨key, rest⟩, -, h⟩ := Option.bind_eq_some_iff.1 h
    dsimp only at h
    split at h
    · obtain ⟨⟨v, rest⟩, read, h⟩ := Option.bind_eq_some_iff.1 h
      obtain ⟨added, add, h⟩ := Option.bind_eq_some_iff.1 h
      obtain ⟨rest, -, h⟩ := Option.bind_eq_some_iff.1 h
      cases h
      have value := (take_distinct _).1 read
      exact Entries.descend_distinct (fun before changed => Entries.add_distinct value key before changed) _ distinct add
    · cases h

theorem Reading.lines?_distinct {fuel : Nat} {r r' : Reading} {chars : List Char} (distinct : r.entries.Distinct)
    (h : lines? fuel r chars = some r') : r'.entries.Distinct := by
  induction fuel generalizing r chars with
  | zero => cases h
  | succ fuel ih =>
    unfold lines? at h
    split at h
    · cases h
      exact distinct
    · obtain ⟨⟨next, rest⟩, line, h⟩ := Option.bind_eq_some_iff.1 h
      exact ih (line?_distinct distinct line) h

/-- No table of a document has a key twice. -/
theorem parse?_distinct {text : String} {t : Table} (h : parse? text = some t) : (Value.table t).Distinct := by
  obtain ⟨r, read, rfl⟩ := Option.map_eq_some_iff.1 h
  have distinct := Reading.lines?_distinct Entries.distinct_nil read
  exact Node.finish_distinct distinct.keys fun e mem => (distinct.each e mem).toValue

end UnitHost.Toml
