import Mathlib.Tactic
import SourceAtlas.Proofs.FileSystem.Plain

/-! # Paths in a plain tree

In a plain tree a path is followed by looking up one component after the other, from where the path
begins.
-/

namespace SourceAtlas

namespace FileSystem

variable {fs : FileSystem} {listing inner : Listing} {entry found : Entry} {path : Path}
  {name : String} {base chain names steps : List String}
  {refuses : List String → Access → Option Refusal}

/-! ## Steps without links -/

/-- The entry that steps lead to from another, with the names that lead to it, if no link is on the
way and no step leads out of a directory. -/
def resolve (refuses : List String → Access → Option Refusal) :
    List String → Entry → List String → Except Refusal (List String × Entry)
  | names, entry, [] => .ok (names, entry)
  | names, .directory listing, step :: rest =>
    match refuses names (.find step) with
    | some refusal => .error refusal
    | none =>
      if stays step then resolve refuses names (.directory listing) rest
      else if maxName < step.utf8ByteSize then .error .nameTooLong
      else
        match Listing.find? listing step with
        | none => .error .noEntry
        | some entry => resolve refuses (names ++ [step]) entry rest
  | _, _, _ :: _ => .error .notDirectory

/-- As `resolve`, from an entry that may not be there. -/
def resolveFrom (refuses : List String → Access → Option Refusal) (names : List String)
    (entry : Option Entry) (steps : List String) : Except Refusal (List String × Entry) :=
  match entry with
  | some entry => resolve refuses names entry steps
  | none => .error .noEntry

theorem resolve_append (h : resolve refuses names entry steps = .ok (chain, found))
    (more : List String) :
    resolve refuses names entry (steps ++ more) = resolve refuses chain found more := by
  fun_induction resolve refuses names entry steps with
  | case1 =>
    obtain ⟨rfl, rfl⟩ := Prod.mk.inj (Except.ok.inj h)
    rfl
  | case2 => cases h
  | case3 names listing step rest hr hs ih =>
    rw [List.cons_append, resolve, hr]
    dsimp only
    rw [if_pos hs]
    exact ih h
  | case4 => cases h
  | case5 => cases h
  | case6 names listing step rest hr hs hl entry hf ih =>
    rw [List.cons_append, resolve, hr]
    dsimp only
    rw [if_neg hs, if_neg hl, hf]
    exact ih h
  | case7 => cases h

theorem resolveFrom_append {entry : Option Entry}
    (h : resolveFrom refuses names entry steps = .ok (chain, found)) (more : List String) :
    resolveFrom refuses names entry (steps ++ more) = resolve refuses chain found more := by
  cases entry with
  | none => cases h
  | some entry => exact resolve_append h more

theorem mem_of_resolve (h : resolve refuses names entry steps = .ok (chain, found)) :
    ∀ name ∈ chain, name ∈ names ∨ name ∈ steps := by
  fun_induction resolve refuses names entry steps with
  | case1 =>
    obtain ⟨rfl, -⟩ := Prod.mk.inj (Except.ok.inj h)
    exact fun _ => Or.inl
  | case2 => cases h
  | case3 _ _ _ _ _ _ ih =>
    intro name hn
    exact (ih h name hn).imp_right (List.mem_cons_of_mem _)
  | case4 => cases h
  | case5 => cases h
  | case6 names _ step _ _ _ _ _ _ ih =>
    intro name hn
    rcases ih h name hn with hn | hn
    · rcases List.mem_append.mp hn with hn | hn
      · exact Or.inl hn
      · exact Or.inr (List.mem_singleton.mp hn ▸ List.mem_cons_self)
    · exact Or.inr (List.mem_cons_of_mem _ hn)
  | case7 => cases h

theorem mem_of_resolveFrom {entry : Option Entry}
    (h : resolveFrom refuses names entry steps = .ok (chain, found)) :
    ∀ name ∈ chain, name ∈ names ∨ name ∈ steps := by
  cases entry with
  | none => cases h
  | some entry => exact mem_of_resolve h

/-- Only a directory can be reached by a last step that is not its name. -/
theorem getLastD_of_resolve (h : resolve refuses names entry steps = .ok (chain, found)) :
    (∃ listing, found = .directory listing) ∨
      chain.getLastD "" = steps.getLastD (names.getLastD "") := by
  fun_induction resolve refuses names entry steps with
  | case1 =>
    obtain ⟨rfl, -⟩ := Prod.mk.inj (Except.ok.inj h)
    exact Or.inr rfl
  | case2 => cases h
  | case3 names listing step rest _ _ ih =>
    cases rest with
    | nil =>
      obtain ⟨-, rfl⟩ := Prod.mk.inj (Except.ok.inj h)
      exact Or.inl ⟨listing, rfl⟩
    | cons next more => exact ih h
  | case4 => cases h
  | case5 => cases h
  | case6 _ _ _ _ _ _ _ _ _ ih =>
    have hlast := ih h
    rw [List.getLastD_concat] at hlast
    rwa [List.getLastD_cons]
  | case7 => cases h

/-! ## Following steps -/

def landing (fs : FileSystem) : Except Refusal Spot → Except Refusal (List String × Entry)
  | .ok (.taken chain) =>
    match entryAt? fs.entries chain with
    | some entry => .ok (chain, entry)
    | none => .error .noEntry
  | .ok (.free _ _) => .error .noEntry
  | .error refusal => .error refusal

theorem reach_eq_landing (fs : FileSystem) (path : Path) :
    fs.reach path =
      if path.text.contains '\x00' then .error .embeddedNul
      else if maxPath < path.text.utf8ByteSize then .error (.refused .nameTooLong path)
      else (fs.landing (fs.followPath .find path)).mapError (.refused · path) := by
  unfold reach spot
  split_ifs
  · rfl
  · rfl
  · cases fs.followPath .find path with
    | error refusal => rfl
    | ok spot =>
      cases spot with
      | taken chain =>
        dsimp only [landing]
        cases entryAt? fs.entries chain <;> rfl
      | free directory name => rfl

theorem entryAt?_concat (h : entryAt? listing chain = some (.directory inner)) (name : String) :
    entryAt? listing (chain ++ [name]) = inner.find? name := by
  induction chain generalizing listing with
  | nil =>
    obtain rfl := Entry.directory.inj (Option.some.inj h)
    exact entryAt?_singleton
  | cons first rest ih =>
    cases rest with
    | nil =>
      rw [entryAt?_singleton] at h
      rw [List.singleton_append, entryAt?.eq_def]
      simp only [h, entryAt?_singleton]
    | cons second rest =>
      obtain ⟨next, hf, hn⟩ := entryAt?_cons.mp h
      rw [← ih hn, List.cons_append, List.cons_append, entryAt?.eq_def]
      simp only [hf]

/-- In a plain tree steps are followed to what they resolve to. -/
theorem landing_follow (links : ℕ) (h : entryAt? fs.entries (base ++ names) = some entry)
    (hp : entry.Plain) (hs : ".." ∉ steps) :
    fs.landing (fs.follow .find links (base ++ names) steps) =
      (resolve (fun names => fs.refuses (base ++ names)) names entry steps).map
        fun found => (base ++ found.1, found.2) := by
  induction steps generalizing names entry with
  | nil =>
    rw [follow, landing, h, resolve]
    rfl
  | cons step rest ih =>
    obtain ⟨hstep, hrest⟩ := List.ne_and_not_mem_of_not_mem_cons hs
    cases hp with
    | file bytes =>
      rw [follow.eq_def, resolve.eq_def]
      simp only [h, landing, Except.map]
    | @directory listing hn hm =>
      have hplain : (Entry.directory listing).Plain := .directory hn hm
      rw [follow.eq_def, resolve.eq_def]
      dsimp only
      rw [h]
      dsimp only
      cases hr : fs.refuses (base ++ names) (.find step) with
      | some refusal => rfl
      | none =>
        dsimp only
        by_cases hstay : stays step
        · rw [if_pos hstay, if_pos hstay]
          exact ih h hplain hrest
        rw [if_neg hstay, if_neg hstay, if_neg (Ne.symm hstep), if_neg (by simp [Aim.refuses])]
        by_cases hlong : maxName < step.utf8ByteSize
        · rw [if_pos hlong, if_pos hlong]
          rfl
        rw [if_neg hlong, if_neg hlong]
        cases hf : Listing.find? listing step with
        | none =>
          dsimp only
          split_ifs <;> rfl
        | some found =>
          have hat := (entryAt?_concat h step).trans hf
          rw [List.append_assoc] at hat
          have hfound := hm _ (Listing.mem_of_find? hf)
          rw [List.append_assoc]
          cases hfound with
          | file bytes => exact ih hat (.file bytes) hrest
          | directory hn hm => exact ih hat (.directory hn hm) hrest

theorem plain_of_entryAt? (h : (Entry.directory listing).Plain)
    (he : entryAt? listing chain = some entry) : entry.Plain := by
  induction chain generalizing listing with
  | nil =>
    obtain rfl : Entry.directory listing = entry := Option.some.inj he
    exact h
  | cons name rest ih =>
    cases rest with
    | nil =>
      rw [entryAt?_singleton] at he
      exact h.mem (Listing.mem_of_find? he)
    | cons other names =>
      obtain ⟨inner, hf, he⟩ := entryAt?_cons.mp he
      exact ih (h.mem (Listing.mem_of_find? hf)) he

/-! ## Paths -/

def origin? (fs : FileSystem) (anchor : Anchor) : Option Entry :=
  entryAt? fs.entries (fs.origin anchor)

/-- What is refused at the end of names that are followed from where a path begins. -/
def refusesFrom (fs : FileSystem) (anchor : Anchor) (names : List String) :
    Access → Option Refusal :=
  fs.refuses (fs.origin anchor ++ names)

/-- The entry that the components of a path lead to, with the names that lead to it. -/
def trace (fs : FileSystem) (path : Path) : Except Refusal (List String × Entry) :=
  resolveFrom (fs.refusesFrom path.anchor) [] (fs.origin? path.anchor) path.parts

theorem landing_followPath (hp : fs.IsPlain) (hd : ".." ∉ path.parts) :
    fs.landing (fs.followPath .find path) =
      (fs.trace path).map fun found => (fs.origin path.anchor ++ found.1, found.2) := by
  unfold followPath trace resolveFrom
  cases ho : fs.origin? path.anchor with
  | some entry =>
    have hat : entryAt? fs.entries (fs.origin path.anchor ++ []) = some entry := by
      rw [List.append_nil]
      exact ho
    have hfollow := landing_follow maxLinks hat (plain_of_entryAt? hp ho) hd
    rwa [List.append_nil] at hfollow
  | none =>
    unfold origin? at ho
    cases path.parts with
    | nil =>
      rw [follow.eq_def]
      simp only [landing, ho, Except.map]
    | cons step rest =>
      rw [follow.eq_def]
      simp only [ho, landing, Except.map]

theorem reach_eq (hp : fs.IsPlain) (hd : ".." ∉ path.parts) :
    fs.reach path =
      if path.text.contains '\x00' then .error .embeddedNul
      else if maxPath < path.text.utf8ByteSize then .error (.refused .nameTooLong path)
      else ((fs.trace path).map fun found =>
        (fs.origin path.anchor ++ found.1, found.2)).mapError (.refused · path) := by
  rw [reach_eq_landing, landing_followPath hp hd]

theorem reach_eq_ok_iff (hp : fs.IsPlain) (hd : ".." ∉ path.parts) :
    fs.reach path = .ok (chain, entry) ↔
      ¬path.text.contains '\x00' ∧ path.text.utf8ByteSize ≤ maxPath ∧
        ∃ names, fs.trace path = .ok (names, entry) ∧ chain = fs.origin path.anchor ++ names := by
  rw [reach_eq hp hd]
  split_ifs with hnul hlong
  · simp [hnul]
  · simp [hlong]
  · cases ht : fs.trace path with
    | error refusal => simp [Except.map, Except.mapError]
    | ok found =>
      obtain ⟨names, other⟩ := found
      constructor
      · intro h
        obtain ⟨rfl, rfl⟩ := Prod.mk.inj (Except.ok.inj h)
        exact ⟨hnul, Nat.not_lt.mp hlong, names, rfl, rfl⟩
      · rintro ⟨-, -, names', h, rfl⟩
        obtain ⟨rfl, rfl⟩ := Prod.mk.inj (Except.ok.inj h)
        rfl

def present {α : Type} : Except Refusal α → Except Refusal (Option α)
  | .ok found => .ok (some found)
  | .error .noEntry | .error .notDirectory | .error .tooManyLinks => .ok none
  | .error refusal => .error refusal

/-- The status of a path, by what its components resolve to. -/
theorem status_eq (hp : fs.IsPlain) (hd : ".." ∉ path.parts) :
    fs.status path =
      if path.text.contains '\x00' then .ok none
      else if maxPath < path.text.utf8ByteSize then .error (.refused .nameTooLong path)
      else ((present (fs.trace path)).map (·.map (·.2))).mapError (.refused · path) := by
  rw [status, lookUp, reach_eq hp hd]
  split_ifs
  · rfl
  · rfl
  · cases fs.trace path with
    | ok found => rfl
    | error refusal => cases refusal <;> rfl

theorem plain_of_status (hp : fs.IsPlain) (h : fs.status path = .ok (some entry)) :
    entry.Plain := by
  obtain ⟨chain, hr⟩ := exists_reach_of_status h
  exact plain_of_entryAt? hp (entryAt?_of_reach hr).2

end FileSystem

end SourceAtlas
