import Mathlib.Tactic
import SourceAtlas.Proofs.FileSystem.Walk

/-! # What the system refuses on the way

Whatever is wrong with a path, it only means that there is nothing at it, unless the system refuses
to look up a name that is met on the way: the name is too long, or the directory may not be searched,
or it cannot be read.
-/

namespace SourceAtlas.FileSystem

variable {fs : FileSystem} {path : Path} {chain steps rest : List String} {links : ℕ} {step : String}
  {listing : Listing} {refusal : Refusal} {error : FileError}

/-- Whether there is a directory at a chain of names in which a step may be looked up. -/
def Opens (fs : FileSystem) (chain : List String) (step : String) (listing : Listing) : Prop :=
  entryAt? fs.entries chain = some (.directory listing) ∧ fs.refuses chain (.find step) = none

/-- Whether a step goes on to an entry of a directory. -/
def Names (step : String) : Prop :=
  ¬stays step ∧ step ≠ ".."

/-- Following steps from a directory comes to a name whose lookup is refused. A link is replaced by
its target, as long as links may lie on the way. -/
inductive Meets (fs : FileSystem) (refusal : Refusal) : ℕ → List String → List String → Prop
  | refused {links : ℕ} {chain rest : List String} {step : String} {listing : Listing} :
      entryAt? fs.entries chain = some (.directory listing) →
      fs.refuses chain (.find step) = some refusal → Meets fs refusal links chain (step :: rest)
  | long {links : ℕ} {chain rest : List String} {step : String} {listing : Listing} :
      refusal = .nameTooLong → fs.Opens chain step listing → Names step →
      maxName < step.utf8ByteSize → Meets fs refusal links chain (step :: rest)
  | stay {links : ℕ} {chain rest : List String} {step : String} {listing : Listing} :
      fs.Opens chain step listing → stays step → Meets fs refusal links chain rest →
      Meets fs refusal links chain (step :: rest)
  | leave {links : ℕ} {chain rest : List String} {listing : Listing} :
      fs.Opens chain ".." listing → Meets fs refusal links chain.dropLast rest →
      Meets fs refusal links chain (".." :: rest)
  | enter {links : ℕ} {chain rest : List String} {step : String} {listing : Listing}
      {entry : Entry} : fs.Opens chain step listing → Names step → step.utf8ByteSize ≤ maxName →
      listing.find? step = some entry → (∀ target, entry ≠ .link target) →
      Meets fs refusal links (chain ++ [step]) rest → Meets fs refusal links chain (step :: rest)
  | link {links : ℕ} {chain rest : List String} {step target : String} {listing : Listing} :
      fs.Opens chain step listing → Names step → step.utf8ByteSize ≤ maxName →
      listing.find? step = some (.link target) →
      Meets fs refusal links (if target.startsWith "/" then [] else chain)
        (stepsOf target ++ rest) →
      Meets fs refusal (links + 1) chain (step :: rest)

/-! ## One step -/

section Steps

variable (ho : fs.Opens chain step listing)
include ho

theorem follow_stay (hs : stays step) (aim : Aim) :
    fs.follow aim links chain (step :: rest) = fs.follow aim links chain rest := by
  rw [follow.eq_def]
  simp only [ho.1, ho.2, hs, if_true]

theorem follow_long (hn : Names step) (hlong : maxName < step.utf8ByteSize) :
    fs.follow .find links chain (step :: rest) = .error .nameTooLong := by
  rw [follow.eq_def]
  simp [ho.1, ho.2, hn.1, hn.2, Aim.refuses, hlong]

theorem follow_enter {entry : Entry} (hn : Names step) (hshort : step.utf8ByteSize ≤ maxName)
    (hf : listing.find? step = some entry) (hl : ∀ target, entry ≠ .link target) :
    fs.follow .find links chain (step :: rest) = fs.follow .find links (chain ++ [step]) rest := by
  rw [follow.eq_def]
  cases entry with
  | link target => exact absurd rfl (hl target)
  | file | directory => simp [ho.1, ho.2, hn.1, hn.2, Aim.refuses, Nat.not_lt.mpr hshort, hf]

theorem follow_link {target : String} (hn : Names step) (hshort : step.utf8ByteSize ≤ maxName)
    (hf : listing.find? step = some (.link target)) :
    fs.follow .find (links + 1) chain (step :: rest) =
      fs.follow .find links (if target.startsWith "/" then [] else chain)
        (stepsOf target ++ rest) := by
  rw [follow.eq_def]
  simp [ho.1, ho.2, hn.1, hn.2, Aim.refuses, Nat.not_lt.mpr hshort, hf]

end Steps

theorem follow_leave (ho : fs.Opens chain ".." listing) (aim : Aim) :
    fs.follow aim links chain (".." :: rest) = fs.follow aim links chain.dropLast rest := by
  rw [follow.eq_def]
  simp [ho.1, ho.2, stays]

theorem follow_refused (hd : entryAt? fs.entries chain = some (.directory listing))
    (hr : fs.refuses chain (.find step) = some refusal) (aim : Aim) :
    fs.follow aim links chain (step :: rest) = .error refusal := by
  rw [follow.eq_def]
  simp only [hd, hr]

/-! ## All steps -/

theorem Meets.follow_eq (h : fs.Meets refusal links chain steps) :
    fs.follow .find links chain steps = .error refusal := by
  induction h with
  | refused hd hr => exact follow_refused hd hr .find
  | long hl ho hn hlong => rw [follow_long ho hn hlong, hl]
  | stay ho hs _ ih => rw [follow_stay ho hs, ih]
  | leave ho _ ih => rw [follow_leave ho, ih]
  | enter ho hn hshort hf hl _ ih => rw [follow_enter ho hn hshort hf hl, ih]
  | link ho hn hshort hf _ ih => rw [follow_link ho hn hshort hf, ih]

/-- Steps that are followed fail of a name that is met, or only for want of something there. -/
theorem meets_of_follow (h : fs.follow .find links chain steps = .error refusal)
    (ha : ¬meansAbsent (.refused refusal path)) : fs.Meets refusal links chain steps := by
  have absent : ∀ {other : Refusal}, meansAbsent (.refused other path) →
      (.error other : Except Refusal Spot) ≠ .error refusal := by
    rintro other ho he
    exact ha (Except.error.inj he ▸ ho)
  fun_induction follow fs .find links chain steps with
  | case1 => cases h
  | case2 _ _ _ _ _ hd _ hr =>
    obtain rfl := Except.error.inj h
    exact .refused hd hr
  | case3 _ _ _ _ _ hd hr hs ih => exact .stay ⟨hd, hr⟩ hs (ih h)
  | case4 _ _ _ _ hd hr _ ih => exact .leave ⟨hd, hr⟩ (ih h)
  | case5 _ _ _ _ _ _ _ _ _ hr => simp [Aim.refuses] at hr
  | case6 _ _ _ _ _ hd hr hs hdots _ hlong =>
    exact .long (Except.error.inj h).symm ⟨hd, hr⟩ ⟨hs, hdots⟩ hlong
  | case7 => cases h
  | case8 => exact absurd h (absent rfl)
  | case9 => exact absurd h (absent rfl)
  | case10 _ _ _ _ hd hr hs hdots _ hshort _ hf _ ih =>
    exact .link ⟨hd, hr⟩ ⟨hs, hdots⟩ (Nat.not_lt.mp hshort) hf (ih h)
  | case11 _ _ _ _ _ hd hr hs hdots _ hshort _ hl hf ih =>
    exact .enter ⟨hd, hr⟩ ⟨hs, hdots⟩ (Nat.not_lt.mp hshort) hf hl (ih h)
  | case12 => exact absurd h (absent rfl)
  | case13 => exact absurd h (absent rfl)

/-- An error of a status is one of following the path, but not that there is nothing at it. -/
theorem status_eq_error : fs.status path = .error error ↔
    fs.spot .find path = .error error ∧ ¬meansAbsent error := by
  have habsent : meansAbsent (.refused .noEntry path) = true := rfl
  unfold status lookUp reach
  cases fs.spot .find path with
  | error e =>
    dsimp only [Except.map]
    split_ifs with ha
    · refine iff_of_false (by simp) ?_
      rintro ⟨he, hn⟩
      exact hn (Except.error.inj he ▸ ha)
    · simp only [Except.error.injEq]
      exact iff_self_and.mpr fun he => he ▸ ha
  | ok spot =>
    cases spot with
    | free => simp [Except.map, habsent]
    | taken chain => cases he : entryAt? fs.entries chain <;> simp [Except.map, habsent, he]

/-- The status of a path is told unless the path is too long or a lookup on the way is refused for
another reason than that there is nothing. -/
theorem status_eq_error_iff : fs.status path = .error error ↔
    ¬path.text.contains '\x00' ∧ ∃ refusal, error = .refused refusal path ∧
      ¬meansAbsent error ∧
      if maxPath < path.text.utf8ByteSize then refusal = .nameTooLong
      else fs.Meets refusal maxLinks (fs.origin path.anchor) path.parts := by
  rw [status_eq_error, spot]
  by_cases hnul : path.text.contains '\x00'
  · rw [if_pos hnul]
    refine iff_of_false ?_ fun h => h.1 hnul
    rintro ⟨he, ha⟩
    exact ha (Except.error.inj he ▸ rfl)
  rw [if_neg hnul]
  by_cases hlong : maxPath < path.text.utf8ByteSize
  · simp only [if_pos hlong, Except.error.injEq]
    constructor
    · rintro ⟨rfl, ha⟩
      exact ⟨hnul, .nameTooLong, rfl, ha, rfl⟩
    · rintro ⟨-, _, rfl, ha, rfl⟩
      exact ⟨rfl, ha⟩
  · simp only [if_neg hlong]
    cases hf : fs.followPath .find path with
    | ok spot =>
      refine iff_of_false (by simp) ?_
      rintro ⟨-, refusal, -, -, hm⟩
      cases hf.symm.trans hm.follow_eq
    | error refusal =>
      simp only [Except.error.injEq]
      constructor
      · rintro ⟨rfl, ha⟩
        exact ⟨hnul, refusal, rfl, ha, meets_of_follow hf ha⟩
      · rintro ⟨-, other, rfl, ha, hm⟩
        obtain rfl := Except.error.inj (hf.symm.trans hm.follow_eq)
        exact ⟨rfl, ha⟩

/-- The status of a name that is too long is not told. -/
theorem status_of_long_name {name : String} (ho : fs.Opens fs.here name listing)
    (hn : '\x00' ∉ name.toList) (hname : maxName < name.utf8ByteSize)
    (hpath : name.utf8ByteSize ≤ maxPath) :
    fs.status ⟨.here, [name]⟩ = .error (.refused .nameTooLong ⟨.here, [name]⟩) := by
  have ht : (⟨.here, [name]⟩ : Path).text = name := by simp [Path.text, Anchor.text]
  have hnames : Names name := by
    refine ⟨fun hs => ?_, ?_⟩
    · rcases Bool.or_eq_true_iff.mp hs with hs | hs <;> obtain rfl := eq_of_beq hs <;>
        exact absurd hname (by decide)
    · rintro rfl
      exact absurd hname (by decide)
  refine status_eq_error_iff.mpr ⟨?_, .nameTooLong, rfl, Bool.false_ne_true, ?_⟩
  · simpa [ht, String.contains_char_eq] using hn
  · rw [if_neg (by rw [ht]; exact Nat.not_lt.mpr hpath)]
    exact .long rfl ho hnames hname

end SourceAtlas.FileSystem
