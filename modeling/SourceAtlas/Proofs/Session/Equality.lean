import Mathlib
import SourceAtlas.Proofs.Session.Merging

/-! # Equal records

Records are compared by their particulars and their texts, not by what is derived from the texts. In
every session that steps lead to, the bytes and the line index of a record follow from its text, so
that nothing that can be asked of two equal records tells them apart, nor anything that can be asked
by id of two equal tables.
-/

namespace SourceAtlas

namespace SourceFile

variable {a b c : SourceFile}

theorem same_trans (hab : a.same b) (hbc : b.same c) : a.same c := by
  rw [same_iff] at *
  obtain ⟨hid, hname, hpath, hkind, hsource⟩ := hab
  rw [hid, hname, hpath, hkind, hsource]
  exact hbc

theorem same_replaceContent (h : a.same b) (text : String) :
    (a.replaceContent text).same (b.replaceContent text) := by
  obtain ⟨hid, hname, hpath, hkind, -⟩ := same_iff.mp h
  exact same_iff.mpr ⟨hid, hname, hpath, hkind, rfl⟩

structure AnswersAlike (a b : SourceFile) : Prop where
  displayName : a.displayName = b.displayName
  source : a.source = b.source
  bytes : a.bytes = b.bytes
  starts : a.lines.starts = b.lines.starts
  lineStart : ∀ line, a.lineStart line = b.lineStart line
  lineAt : ∀ offset, a.lineAt offset = b.lineAt offset
  lineRange : ∀ line, a.lineRange line = b.lineRange line
  lineText : ∀ line, a.lineText line = b.lineText line
  resolvePosition : ∀ line column, a.resolvePosition line column = b.resolvePosition line column
  describe : a.describe = b.describe
  parse : ∀ grammar, a.parse grammar = b.parse grammar

/-- Equal records whose derived data belong to their texts have those in common too. -/
theorem eq_of_same (ha : a.snapshot = .of a.source) (hb : b.snapshot = .of b.source)
    (h : a.same b) : a = b := by
  obtain ⟨hid, hname, hpath, hkind, hsource⟩ := same_iff.mp h
  have hsnapshot : a.snapshot = b.snapshot := by rw [ha, hb, hsource]
  calc a = ⟨a.id, a.name, a.path, a.kind, a.snapshot⟩ := rfl
    _ = ⟨b.id, b.name, b.path, b.kind, b.snapshot⟩ := by rw [hid, hname, hpath, hkind, hsnapshot]
    _ = b := rfl

theorem answersAlike_of_same (ha : a.snapshot = .of a.source) (hb : b.snapshot = .of b.source)
    (h : a.same b) : a.AnswersAlike b := by
  obtain rfl := eq_of_same ha hb h
  constructor <;> intros <;> rfl

end SourceFile

namespace Session

variable {s : Session} {table other : Table} {a b : SourceFile}

theorem snapshot_of_run (files : FileSystem) (trees : List (String × Tree)) (steps : List Step)
    (ha : a ∈ ((start files trees).run steps).records) : a.snapshot = .of a.source := by
  obtain ⟨handle, hh⟩ := Array.mem_iff_getElem?.mp ha
  exact ((kept_start files trees).run steps).coherent handle a hh

theorem mem_records_of_record? {id : Int} (h : s.record? table id = some a) : a ∈ s.records := by
  obtain ⟨handle, -, hr⟩ := Option.bind_eq_some_iff.mp h
  exact Array.mem_of_getElem? hr

theorem contains_eq_of_equalTables (ht : s.Indexes table) (ho : s.Indexes other)
    (h : s.equalTables table other) (id : Int) : table.contains id = other.contains id := by
  have hkeys := ((equalTables_iff ht ho).mp h).1 id
  rw [Bool.eq_iff_iff, OrderedMap.contains, OrderedMap.contains, Option.isSome_iff_exists,
    Option.isSome_iff_exists, ← OrderedMap.mem_keys_iff_get?, ← OrderedMap.mem_keys_iff_get?, hkeys]

/-- Under an id, equal tables have no record or two that are related as equal records are. -/
theorem rel_record?_of_equalTables {related : SourceFile → SourceFile → Prop}
    (ht : s.Indexes table) (ho : s.Indexes other) (h : s.equalTables table other)
    (hr : ∀ a ∈ s.records, ∀ b ∈ s.records, a.same b → related a b) (id : Int) :
    Option.Rel related (s.record? table id) (s.record? other id) := by
  obtain ⟨hkeys, hall⟩ := (equalTables_iff ht ho).mp h
  cases htable : s.record? table id with
  | none =>
    cases hother : s.record? other id with
    | none => exact .none
    | some b =>
      obtain ⟨a, ha⟩ := ht.exists_record? ((hkeys id).mpr (mem_keys_of_record? hother))
      cases htable.symm.trans ha
  | some a =>
    obtain ⟨b, hother⟩ := ho.exists_record? ((hkeys id).mp (mem_keys_of_record? htable))
    rw [hother]
    exact .some (hr a (mem_records_of_record? htable) b (mem_records_of_record? hother)
      (hall id a b htable hother))

/-- In every session that steps lead to, equality of records is an equivalence, and equal records
answer alike whatever they are asked. Given the same text they are equal again, and answer alike
then. Two equal tables have the same ids, and under each of them records that answer alike, whatever
the order of the ids in the tables. -/
theorem answers_of_run (files : FileSystem) (trees : List (String × Tree)) (steps : List Step) :
    let s := (start files trees).run steps
    (∀ a ∈ s.records, a.same a ∧ ∀ b ∈ s.records, a.same b → b.same a ∧
      ∀ c ∈ s.records, b.same c → a.same c) ∧
    (∀ a ∈ s.records, ∀ b ∈ s.records, a.same b → a.AnswersAlike b ∧ ∀ text,
      (a.replaceContent text).same (b.replaceContent text) ∧
        (a.replaceContent text).AnswersAlike (b.replaceContent text)) ∧
    ∀ table other, s.HasTable table → s.HasTable other → s.equalTables table other → ∀ id,
      table.contains id = other.contains id ∧
        Option.Rel (fun a b => a.same b ∧ a.AnswersAlike b) (s.record? table id)
          (s.record? other id) := by
  intro s
  have hsnapshot : ∀ a ∈ s.records, a.snapshot = .of a.source :=
    fun _ => snapshot_of_run files trees steps
  have halike : ∀ a ∈ s.records, ∀ b ∈ s.records, a.same b → a.AnswersAlike b :=
    fun a ha b hb => SourceFile.answersAlike_of_same (hsnapshot a ha) (hsnapshot b hb)
  refine ⟨?_, ?_, ?_⟩
  · intro a _
    refine ⟨a.same_self, fun b _ hab => ⟨SourceFile.same_comm.mp hab, ?_⟩⟩
    exact fun c _ hbc => SourceFile.same_trans hab hbc
  · intro a ha b hb hab
    refine ⟨halike a ha b hb hab, fun text => ?_⟩
    have hreplaced := SourceFile.same_replaceContent hab text
    exact ⟨hreplaced, SourceFile.answersAlike_of_same rfl rfl hreplaced⟩
  · intro table other ht ho h id
    have htable := indexes_of_run files trees steps ht
    have hother := indexes_of_run files trees steps ho
    refine ⟨contains_eq_of_equalTables htable hother h id, ?_⟩
    exact rel_record?_of_equalTables htable hother h
      (fun a ha b hb hab => ⟨hab, halike a ha b hb hab⟩) id

/-- A record that is read again and one that was made with the text, and two that are on no disk, in
tables of opposite orders. -/
def mirrored : List Step :=
  let path : Path := ⟨.here, ["d", "a.mjs"]⟩
  [.edit (.write path [0x61, 0x0A, 0xC3, 0xA9]), .create "w" [], .create "v" [],
    .add "w" (.full "a\né" "n" (some path) 5 (.text "module")), .add "w" (.virtual "x" none none),
    .add "v" (.virtual "y" none none), .add "v" (.full "" "n" (some path) 5 (.text "module")),
    .refresh "v" path, .replace "v" 0 "x"]

theorem answers_of_mirrored :
    let s := (start .empty []).run mirrored
    let w : Table := ⟨[(5, 0), (0, 1)]⟩
    let v : Table := ⟨[(0, 2), (5, 3)]⟩
    s.catalogs.get? "w" = some ⟨{}, w⟩ ∧ s.catalogs.get? "v" = some ⟨{}, v⟩ ∧ s.equalTables w v ∧
      w.contains 5 = v.contains 5 ∧
      Option.Rel (fun a b => a.same b ∧ a.AnswersAlike b) (s.record? w 5) (s.record? v 5) ∧
      ∃ a ∈ s.records, ∃ b ∈ s.records, a.same b ∧ b.same a ∧ a.AnswersAlike b ∧
        (a.replaceContent "\n").AnswersAlike (b.replaceContent "\n") := by
  intro s w v
  have hw : ((start .empty []).run mirrored).catalogs.get? "w" =
      some ⟨{}, ⟨[(5, 0), (0, 1)]⟩⟩ := by cbv
  have hv : ((start .empty []).run mirrored).catalogs.get? "v" =
      some ⟨{}, ⟨[(0, 2), (5, 3)]⟩⟩ := by cbv
  have hequal : ((start .empty []).run mirrored).equalTables
      ⟨[(5, 0), (0, 1)]⟩ ⟨[(0, 2), (5, 3)]⟩ := by cbv
  have hsame : (((start .empty []).run mirrored).records[0]?.bind fun a =>
      ((start .empty []).run mirrored).records[3]?.map a.same) = some true := by cbv
  obtain ⟨a, ha, hb⟩ := Option.bind_eq_some_iff.mp hsame
  obtain ⟨b, hb, hab⟩ := Option.map_eq_some_iff.mp hb
  have ha := Array.mem_of_getElem? ha
  have hb := Array.mem_of_getElem? hb
  obtain ⟨hequivalence, halike, hlookups⟩ := answers_of_run .empty [] mirrored
  obtain ⟨hcontains, hrel⟩ := hlookups _ _ (.inl ⟨"w", _, hw, rfl⟩) (.inl ⟨"v", _, hv, rfl⟩) hequal 5
  obtain ⟨hanswers, hreplaced⟩ := halike a ha b hb hab
  exact ⟨hw, hv, hequal, hcontains, hrel, a, ha, b, hb, hab,
    ((hequivalence a ha).2 b hb hab).1, hanswers, (hreplaced "\n").2⟩

end Session

end SourceAtlas
