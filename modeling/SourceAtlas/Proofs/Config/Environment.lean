import Mathlib
import SourceAtlas.Proofs.Config.Normalising
import SourceAtlas.Proofs.Number.Numeral
import SourceAtlas.Proofs.Text.Cells
import SourceAtlas.Proofs.Text.Items

/-! # Configurations from the environment

Each of three variables gives one field of a configuration, whatever the two others hold. A
configuration that is written into them, with blanks and empty items wherever they may stand, is
read back.
-/

namespace SourceAtlas.Config

variable {config : Config} {environment : Environment} {raw : String} {n : Nat}

/-! ## One field for each variable -/

def ignoredOf (raw : String) : List String :=
  if Text.items raw = [] then ({} : Config).ignored else nameSet (Text.items raw)

def extensionsOf (raw : String) : List String :=
  if Text.items raw = [] then ({} : Config).extensions
  else nameSet ((Text.items raw).map normalise)

def maxWorkersOf (raw : String) : Checked (Option Nat) :=
  if Text.strip raw = "" then .ok ({} : Config).maxWorkers
  else .under (.field "max_workers") (readMaxWorkers (.text (Text.strip raw)))

theorem field?_fieldsOf (environment : Environment) :
    let ignored := Text.items (environment.get "LINTWALK_IGNORED")
    let extensions := Text.items (environment.get "LINTWALK_EXTENSIONS")
    let workers := Text.strip (environment.get "LINTWALK_MAX_WORKERS")
    Value.field? (fieldsOf environment) "ignored" =
        (if ignored = [] then none else some (.list (ignored.map .text))) ∧
      Value.field? (fieldsOf environment) "linted_extensions" =
        (if extensions = [] then none else some (.list (extensions.map .text))) ∧
      Value.field? (fieldsOf environment) "max_workers" =
        (if workers = "" then none else some (.text workers)) := by
  intro ignored extensions workers
  unfold fieldsOf listField
  simp only [List.isEmpty_iff]
  split_ifs <;> exact ⟨rfl, rfl, rfl⟩

theorem ofEnvironment_eq (environment : Environment) :
    ofEnvironment environment =
      (maxWorkersOf (environment.get "LINTWALK_MAX_WORKERS")).map fun maxWorkers =>
        { ignored := ignoredOf (environment.get "LINTWALK_IGNORED")
          extensions := extensionsOf (environment.get "LINTWALK_EXTENSIONS")
          maxWorkers } := by
  obtain ⟨hignored, hextensions, hworkers⟩ := field?_fieldsOf environment
  have hi : Value.optional "ignored" ({} : Config).ignored readIgnored (fieldsOf environment) =
      .ok (ignoredOf (environment.get "LINTWALK_IGNORED")) := by
    rw [Value.optional, hignored, ignoredOf]
    split_ifs
    · rfl
    · exact congrArg _ (readIgnored_names _)
  have he : Value.optional "linted_extensions" ({} : Config).extensions readExtensions
      (fieldsOf environment) = .ok (extensionsOf (environment.get "LINTWALK_EXTENSIONS")) := by
    rw [Value.optional, hextensions, extensionsOf]
    split_ifs
    · rfl
    · exact congrArg _ (readExtensions_names _)
  have hw : Value.optional "max_workers" ({} : Config).maxWorkers readMaxWorkers
      (fieldsOf environment) = maxWorkersOf (environment.get "LINTWALK_MAX_WORKERS") := by
    rw [Value.optional, hworkers, maxWorkersOf]
    split_ifs <;> rfl
  rw [ofEnvironment, ofFields, hi, he, hw]
  cases maxWorkersOf (environment.get "LINTWALK_MAX_WORKERS") <;> rfl

theorem ofEnvironment_eq_ok_iff : ofEnvironment environment = .ok config ↔
    config.ignored = ignoredOf (environment.get "LINTWALK_IGNORED") ∧
      config.extensions = extensionsOf (environment.get "LINTWALK_EXTENSIONS") ∧
      maxWorkersOf (environment.get "LINTWALK_MAX_WORKERS") = .ok config.maxWorkers := by
  rw [ofEnvironment_eq]
  cases maxWorkersOf (environment.get "LINTWALK_MAX_WORKERS") with
  | error issues => simp [Except.map]
  | ok maxWorkers =>
    cases config
    simp only [Except.map, Except.ok.injEq, mk.injEq]
    tauto

theorem readMaxWorkers_text_eq_ok_iff {text : String} {workers : Option Nat} :
    readMaxWorkers (.text text) = .ok workers ↔
      ∃ n : Int, Numeral.read text = .ok n ∧ 1 ≤ n ∧ workers = some n.toNat := by
  simp only [readMaxWorkers, Value.readInt, Value.readNumeral]
  cases Numeral.read text with
  | error reason => cases reason <;> simp [Checked.fail]
  | ok n =>
    simp only [Except.ok.injEq, exists_eq_left']
    split_ifs with hn
    · simp [hn, eq_comm]
    · simp [hn, Checked.fail]

theorem strip_eq_empty_iff : Text.strip raw = "" ↔ ∀ c ∈ raw.toList, Text.isBlank c := by
  rw [← Text.trim_eq_nil_iff, Text.strip, ← String.toList_inj, String.toList_ofList,
    String.toList_empty]

theorem maxWorkersOf_eq_error_iff : (∃ issues, maxWorkersOf raw = .error issues) ↔
    Text.strip raw ≠ "" ∧ ¬∃ n : Int, Numeral.read (Text.strip raw) = .ok n ∧ 1 ≤ n := by
  have hok : (∃ workers, readMaxWorkers (.text (Text.strip raw)) = .ok workers) ↔
      ∃ n : Int, Numeral.read (Text.strip raw) = .ok n ∧ 1 ≤ n := by
    simp only [readMaxWorkers_text_eq_ok_iff]
    exact ⟨fun ⟨_, n, hr, hn, _⟩ => ⟨n, hr, hn⟩, fun ⟨n, hr, hn⟩ => ⟨_, n, hr, hn, rfl⟩⟩
  rw [← hok, maxWorkersOf]
  split_ifs with hempty
  · simp [hempty]
  · cases readMaxWorkers (.text (Text.strip raw)) <;> simp [Checked.under, hempty]

/-! ## Written configurations -/

structure IsWritable (config : Config) : Prop where
  ignored : config.ignored ≠ []
  extensions : config.extensions ≠ []
  isItem : ∀ name ∈ config.ignored ++ config.extensions, Text.IsItem name.toList
  undotted : ∀ extension ∈ config.extensions, extension.toList.head? ≠ some '.'
  digits : ∀ n, config.maxWorkers = some n → (toString n).length ≤ Numeral.maxDigits

/-- Whether variables hold a configuration. Extensions may have a dot in front. -/
structure IsWritten (config : Config) (environment : Environment) : Prop where
  ignored : Text.Lists ([·]) config.ignored (environment.get "LINTWALK_IGNORED")
  extensions : Text.Lists (fun extension => [extension, "." ++ extension]) config.extensions
    (environment.get "LINTWALK_EXTENSIONS")
  absent : config.maxWorkers = none →
    ∀ c ∈ (environment.get "LINTWALK_MAX_WORKERS").toList, Text.isBlank c
  present : ∀ n, config.maxWorkers = some n →
    Text.IsPadded (toString n).toList (environment.get "LINTWALK_MAX_WORKERS").toList

theorem isItem_dotted {item : String} (h : Text.IsItem item.toList) :
    Text.IsItem ("." ++ item).toList := by
  have hchars : ("." ++ item).toList = '.' :: item.toList := String.toList_append
  obtain ⟨c, rest, hr⟩ := List.exists_cons_of_ne_nil h.ne_nil
  have hlast := h.trimmed.last
  rw [hchars]
  refine ⟨List.cons_ne_nil _ _, ?_, ?_, ?_⟩
  · rw [List.mem_cons, not_or]
    exact ⟨by decide, h.comma⟩
  · rintro _ ⟨⟩
    decide
  · rwa [hr, List.getLast?_cons_cons, ← hr]

theorem normalise_dotted {extension : String} (h : Text.IsItem extension.toList) :
    normalise ("." ++ extension) = extension := by
  have hstrip := Text.strip_eq_self_iff.mpr (isItem_dotted h).trimmed
  have hchars : ("." ++ extension).toList = '.' :: extension.toList := String.toList_append
  rw [normalise_of_dot (by rw [hstrip, hchars]), String.ofList_toList]

theorem isTrimmed_toString (n : Nat) : Text.IsTrimmed Text.isBlank (toString n).toList := by
  have hdigits : ∀ c ∈ (toString n).toList, ¬Text.isBlank c :=
    fun c hc => Text.not_isBlank_of_isDigit (Text.isDigit_of_mem_toString hc)
  constructor
  · intro c hc
    exact hdigits c (List.mem_of_mem_head? hc)
  · intro c hc
    exact hdigits c (List.mem_of_mem_getLast? hc)

theorem maxWorkersOf_of_isPadded (h : Text.IsPadded (toString n).toList raw.toList) (hn : 1 ≤ n)
    (hl : (toString n).length ≤ Numeral.maxDigits) : maxWorkersOf raw = .ok (some n) := by
  have hstrip : Text.strip raw = toString n := by
    rw [Text.strip, h.trim_eq, Text.trim_eq_self_iff.mpr (isTrimmed_toString n),
      String.ofList_toList]
  have hne : toString n ≠ "" := by
    rw [Nat.toString_eq_ofList_toDigits, ← String.toList_inj.ne, String.toList_ofList]
    exact Nat.toDigits_ne_nil
  have hread : readMaxWorkers (.text (toString n)) = .ok (some n) :=
    readMaxWorkers_text_eq_ok_iff.mpr ⟨n, Numeral.read_toString hl, by exact_mod_cast hn, rfl⟩
  rw [maxWorkersOf, hstrip, if_neg hne, hread, Checked.under]

/-- A set of names is read back from a text that lists them. -/
theorem nameSet_of_lists {forms : String → List String} {read : String → String}
    {names : List String} (hlists : Text.Lists forms names raw) (hnames : names.Pairwise (· < ·))
    (hne : names ≠ [])
    (hitem : ∀ name ∈ names, ∀ form ∈ forms name, Text.IsItem form.toList)
    (hread : ∀ name ∈ names, ∀ form ∈ forms name, read form = name) :
    Text.items raw ≠ [] ∧ nameSet ((Text.items raw).map read) = names := by
  have hmem : ∀ name, name ∈ (Text.items raw).map read ↔ name ∈ names :=
    fun name => hlists.mem_map_iff hitem hread
  constructor
  · intro hnil
    obtain ⟨name, hn⟩ := List.exists_mem_of_ne_nil names hne
    rw [← hmem, hnil] at hn
    exact List.not_mem_nil hn
  · exact (nameSet_eq_iff.mpr hmem).trans (nameSet_of_pairwise hnames)

theorem ofEnvironment_of_isWritten (hbuilt : config.IsBuilt) (hwritable : config.IsWritable)
    (hwritten : config.IsWritten environment) : ofEnvironment environment = .ok config := by
  rw [ofEnvironment_eq_ok_iff]
  refine ⟨?ignored, ?extensions, ?maxWorkers⟩
  case ignored =>
    have hforms : ∀ name ∈ config.ignored, ∀ form ∈ [name], form = name :=
      fun _ _ _ hf => List.mem_singleton.mp hf
    obtain ⟨hne, hset⟩ := nameSet_of_lists hwritten.ignored hbuilt.ignored hwritable.ignored
      (fun name hn form hf => hforms name hn form hf ▸
        hwritable.isItem name (List.mem_append_left _ hn)) hforms
    rw [List.map_id'] at hset
    rw [ignoredOf, if_neg hne, hset]
  case extensions =>
    have hitem : ∀ extension ∈ config.extensions, Text.IsItem extension.toList :=
      fun extension he => hwritable.isItem extension (List.mem_append_right _ he)
    have hforms : ∀ extension ∈ config.extensions, ∀ form ∈ [extension, "." ++ extension],
        Text.IsItem form.toList ∧ normalise form = extension := by
      intro extension he form hf
      have hnormal : IsNormal extension := ⟨(hitem extension he).trimmed, hwritable.undotted _ he⟩
      rcases List.mem_pair.mp hf with rfl | rfl
      · exact ⟨hitem form he, normalise_eq_self_iff.mpr hnormal⟩
      · exact ⟨isItem_dotted (hitem extension he), normalise_dotted (hitem extension he)⟩
    obtain ⟨hne, hset⟩ := nameSet_of_lists hwritten.extensions hbuilt.extensions
      hwritable.extensions (fun extension he form hf => (hforms extension he form hf).1)
      (fun extension he form hf => (hforms extension he form hf).2)
    rw [extensionsOf, if_neg hne, hset]
  case maxWorkers =>
    cases hn : config.maxWorkers with
    | none => rw [maxWorkersOf, if_pos (strip_eq_empty_iff.mpr (hwritten.absent hn))]
    | some n =>
      exact maxWorkersOf_of_isPadded (hwritten.present n hn) (hbuilt.maxWorkers n hn)
        (hwritable.digits n hn)

/-- A configuration that is written into the variables is read back. Whatever they hold, reading
fails exactly if the last of them, without the blanks around it, is not empty and stands for no
number from one on. Otherwise each gives its own field whatever the others hold, and one that holds
nothing leaves its field at the default. -/
theorem ofEnvironment_of_variables :
    (∀ (config : Config) (environment : Environment), config.IsBuilt → config.IsWritable →
      config.IsWritten environment → ofEnvironment environment = .ok config) ∧
    ∀ environment : Environment,
      ((∃ issues, ofEnvironment environment = .error issues) ↔
        Text.strip (environment.get "LINTWALK_MAX_WORKERS") ≠ "" ∧
          ¬∃ n : Int, Numeral.read (Text.strip (environment.get "LINTWALK_MAX_WORKERS")) = .ok n ∧
            1 ≤ n) ∧
      ∀ config, ofEnvironment environment = .ok config →
        (Text.IsVacant (environment.get "LINTWALK_IGNORED") →
          config.ignored = ({} : Config).ignored) ∧
        (Text.IsVacant (environment.get "LINTWALK_EXTENSIONS") →
          config.extensions = ({} : Config).extensions) ∧
        ((∀ c ∈ (environment.get "LINTWALK_MAX_WORKERS").toList, Text.isBlank c) →
          config.maxWorkers = ({} : Config).maxWorkers) ∧
        ∀ (other : Environment) (otherConfig : Config), ofEnvironment other = .ok otherConfig →
          (environment.get "LINTWALK_IGNORED" = other.get "LINTWALK_IGNORED" →
            config.ignored = otherConfig.ignored) ∧
          (environment.get "LINTWALK_EXTENSIONS" = other.get "LINTWALK_EXTENSIONS" →
            config.extensions = otherConfig.extensions) ∧
          (environment.get "LINTWALK_MAX_WORKERS" = other.get "LINTWALK_MAX_WORKERS" →
            config.maxWorkers = otherConfig.maxWorkers) := by
  refine ⟨fun _ _ => ofEnvironment_of_isWritten, fun environment => ⟨?fails, ?_⟩⟩
  case fails =>
    rw [← maxWorkersOf_eq_error_iff, ofEnvironment_eq]
    cases maxWorkersOf (environment.get "LINTWALK_MAX_WORKERS") <;> simp [Except.map]
  intro config h
  obtain ⟨hignored, hextensions, hworkers⟩ := ofEnvironment_eq_ok_iff.mp h
  refine ⟨fun hv => ?_, fun hv => ?_, fun hb => ?_, fun other otherConfig ho => ?_⟩
  · rw [hignored, ignoredOf, if_pos (Text.items_eq_nil_iff.mpr hv)]
  · rw [hextensions, extensionsOf, if_pos (Text.items_eq_nil_iff.mpr hv)]
  · rw [maxWorkersOf, if_pos (strip_eq_empty_iff.mpr hb)] at hworkers
    exact (Except.ok.inj hworkers).symm
  · obtain ⟨hignored', hextensions', hworkers'⟩ := ofEnvironment_eq_ok_iff.mp ho
    refine ⟨fun he => ?_, fun he => ?_, fun he => ?_⟩
    · rw [hignored, hignored', he]
    · rw [hextensions, hextensions', he]
    · rw [he] at hworkers
      exact Except.ok.inj (hworkers.symm.trans hworkers')

theorem ofEnvironment_of_padded :
    let environment : Environment := [("LINTWALK_IGNORED", ",dist\t, a b,,"),
      ("LINTWALK_EXTENSIONS", " .ts,cjs"), ("LINTWALK_MAX_WORKERS", " 12\n")]
    let zero : Environment := [("LINTWALK_IGNORED", "dist"), ("LINTWALK_MAX_WORKERS", " 0 ")]
    let vacant : Environment := [("LINTWALK_IGNORED", " ,, "), ("LINTWALK_EXTENSIONS", "ts")]
    ofEnvironment environment =
        .ok { ignored := ["a b", "dist"], extensions := ["cjs", "ts"], maxWorkers := some 12 } ∧
      (∃ issues, ofEnvironment zero = .error issues) ∧
      ∃ config, ofEnvironment vacant = .ok config ∧ config.ignored = ["node_modules"] := by
  intro environment zero vacant
  obtain ⟨hback, hall⟩ := ofEnvironment_of_variables
  refine ⟨?written, ?zero, ?vacant⟩
  case written =>
    have hignored : Text.Lists ([·]) ["a b", "dist"] ",dist\t, a b,," :=
      Text.lists_of_trim (["", "dist\t", " a b", "", ""].map String.toList)
        (by decide) (by decide) (by decide)
    have hextensions : Text.Lists (fun extension => [extension, "." ++ extension]) ["cjs", "ts"]
        " .ts,cjs" :=
      Text.lists_of_trim ([" .ts", "cjs"].map String.toList)
        (by decide) (by decide) (by decide)
    have hpadded : Text.IsPadded "12".toList " 12\n".toList := Text.isPadded_trim _
    refine hback _ environment ⟨by decide, by decide, ?_⟩
      ⟨by decide, by decide, by decide, by decide, ?_⟩ ⟨hignored, hextensions, nofun, ?_⟩
    · rintro _ ⟨⟩
      decide
    · rintro _ ⟨⟩
      decide
    · rintro _ ⟨⟩
      exact hpadded
  case zero =>
    have hread : Numeral.read (Text.strip " 0 ") = .ok 0 := by decide
    have hstrip : Text.strip " 0 " ≠ "" := by decide
    refine (hall zero).1.mpr ⟨hstrip, ?_⟩
    rintro ⟨n, hn, hle⟩
    obtain rfl := Except.ok.inj (hread.symm.trans hn)
    exact absurd hle (by decide)
  case vacant =>
    have h : ofEnvironment [("LINTWALK_IGNORED", " ,, "), ("LINTWALK_EXTENSIONS", "ts")] =
        .ok { extensions := ["ts"] } := by cbv
    have hvacant : Text.IsVacant " ,, " := Text.items_eq_nil_iff.mp (by decide)
    exact ⟨_, h, ((hall vacant).2 _ h).1 hvacant⟩

end SourceAtlas.Config
