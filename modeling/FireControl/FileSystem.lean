import FireControl.Bytes
import FireControl.IoFault

/-!
# Files by path

A file system says what is at each place of a tree of directories. A path is followed from the base
directory name by name: an empty name and a dot stay, two dots go up, and every name is looked up in
a directory. Writing a file makes the directories on the way first, and these stay even if the file
cannot be stored; otherwise all of its bytes are stored. Whether something may be stored at a place is
up to the surroundings: permission may be lacking, or no more room be left for a new entry.
`read_write` says that what was stored is read back.
-/

namespace FireControl

/-- What can be at a place. -/
inductive FileSystem.Entry where
  | file (content : Bytes)
  | directory
  deriving DecidableEq, Repr

/-- A place: the names on the way from the base directory, the nearest first. A place above the base
directory is two dots, once or more often. -/
abbrev FileSystem.Place := List String

/-- What is at each place. -/
structure FileSystem where
  entry : FileSystem.Place → Option FileSystem.Entry
  /-- What keeps anything from being stored at a place. -/
  refusal : FileSystem.Place → Option IoKind := fun _ => none

namespace FileSystem

/-- The base directory, those above it, and nothing else. -/
def empty : FileSystem :=
  { entry := fun place => if place.all (· == "..") then some .directory else none }

def put (fs : FileSystem) (place : Place) (e : Entry) : FileSystem :=
  { fs with entry := fun p => if p = place then some e else fs.entry p }

@[simp] theorem entry_put (fs : FileSystem) (place p : Place) (e : Entry) :
    (fs.put place e).entry p = if p = place then some e else fs.entry p := rfl

/-! ## Paths -/

/-- Where a name leads from a directory. -/
def Place.next (place : Place) (name : String) : Place :=
  if name = "" ∨ name = "." then place
  else if name = ".." then
    match place with
    | [] => [".."]
    | last :: above => if last = ".." then ".." :: place else above
  else name :: place

/-- The names of a path. Irreducible, lest proofs compute the characters of a path byte by byte. -/
@[irreducible] def names (path : String) : List String :=
  (path.toList.splitOn '/').map String.ofList

/-- The greatest number of bytes in a name. -/
def maxNameSize : Nat := 255

/-- Follows one name: the place so far must be a directory. -/
def follow (fs : FileSystem) (place : Place) (name : String) : Except IoKind Place :=
  match fs.entry place with
  | none => .error .notFound
  | some (.file _) => .error .notADirectory
  | some .directory =>
    if maxNameSize < name.utf8ByteSize then .error .invalidFilename else .ok (place.next name)

/-- The place the names of a path lead to; there need be nothing, but in a directory. A name with a
zero character is refused before any is followed. -/
def find (fs : FileSystem) (names : List String) : Except IoKind Place :=
  if names.any (·.contains '\x00') then .error .invalidInput else names.foldlM fs.follow []

/-! ## Reading -/

def read (fs : FileSystem) (path : String) : Except IoKind Bytes := do
  match fs.entry (← fs.find (names path)) with
  | none => .error .notFound
  | some .directory => .error .isADirectory
  | some (.file content) => .ok content

def has (fs : FileSystem) (path : String) : Bool :=
  match fs.find (names path) with
  | .ok place => (fs.entry place).isSome
  | .error _ => false

/-! ## Writing -/

/-- Puts something at a place, if nothing keeps it from being stored there. -/
def tryPut (fs : FileSystem) (place : Place) (e : Entry) : Except IoKind FileSystem :=
  match fs.refusal place with
  | some kind => .error kind
  | none => .ok (fs.put place e)

theorem tryPut_eq_ok {fs fs' : FileSystem} {place : Place} {e : Entry}
    (h : fs.tryPut place e = .ok fs') : fs' = fs.put place e := by
  unfold tryPut at h
  split at h <;> cases h
  rfl

/-- Makes the directories that names lead through from a place, as far as they do not exist. -/
def makeBelow (fs : FileSystem) (place : Place) : List String → Except IoKind Unit × FileSystem
  | [] => (.ok (), fs)
  | name :: below =>
    match fs.follow place name with
    | .error kind => (.error kind, fs)
    | .ok place =>
      match fs.entry place with
      | none =>
        match fs.tryPut place .directory with
        | .error kind => (.error kind, fs)
        | .ok fs => makeBelow fs place below
      | some .directory => makeBelow fs place below
      | some (.file _) => (.error (if below.isEmpty then .alreadyExists else .notADirectory), fs)

/-- Makes the directories that names lead through from the base directory. -/
def makeDirectories (fs : FileSystem) (names : List String) : Except IoKind Unit × FileSystem :=
  if names.any (·.contains '\x00') then (.error .invalidInput, fs) else fs.makeBelow [] names

/-- Makes a directory and those on the way to it. -/
def makeDirectory (fs : FileSystem) (path : String) : Except IoKind Unit × FileSystem :=
  fs.makeDirectories (names path)

/-- Makes the directories on the way to the last name of a path; dots and empty names do not count as
names here. -/
def makeParents (fs : FileSystem) (path : String) : Except IoKind Unit × FileSystem :=
  fs.makeDirectories ((names path).filter fun name => name != "" && name != ".").dropLast

/-- Stores a file in a directory that exists. A path that ends in a stroke names no file, whether or
not there is a directory. -/
def store (fs : FileSystem) (path : String) (content : Bytes) : Except IoKind FileSystem := do
  let backward := (names path).reverse
  let place ← fs.find (backward.dropWhile (· == "")).reverse
  if fs.entry place = some .directory ∨ backward.head? = some "" then .error .isADirectory
  else fs.tryPut place (.file content)

/-- Stores a file, with the directories on the way. -/
def write (fs : FileSystem) (path : String) (content : Bytes) : Except IoKind Unit × FileSystem :=
  match fs.makeParents path with
  | (.error kind, fs) => (.error kind, fs)
  | (.ok (), fs) =>
    match fs.store path content with
    | .error kind => (.error kind, fs)
    | .ok fs => (.ok (), fs)

/-- Damages a file from outside; anything else stays as it is. -/
def damage (fs : FileSystem) (path : String) (f : Bytes → Bytes) : FileSystem :=
  match fs.find (names path) with
  | .error _ => fs
  | .ok place =>
    match fs.entry place with
    | some (.file content) => fs.put place (.file (f content))
    | _ => fs

/-- Allows nothing more to be stored anywhere. -/
def refuse (fs : FileSystem) (kind : IoKind) : FileSystem :=
  { fs with refusal := fun _ => some kind }

/-! ## Reading what was written -/

/-- Reading does not ask what may be stored. -/
theorem read_refuse (fs : FileSystem) (kind : IoKind) (path : String) :
    (fs.refuse kind).read path = fs.read path := rfl

/-- A change at a place that is no directory changes no way to it. -/
theorem foldlM_follow_put {fs : FileSystem} {p q : Place} {e : Entry} {names : List String}
    (hp : fs.entry p ≠ some .directory) (h : names.foldlM fs.follow q = .ok p) :
    names.foldlM (fs.put p e).follow q = .ok p := by
  induction names generalizing q with
  | nil => exact h
  | cons name names ih =>
    have hq : q ≠ p := by
      rintro rfl
      match he : fs.entry q with
      | none => simp [follow, he] at h; cases h
      | some (.file _) => simp [follow, he] at h; cases h
      | some .directory => exact hp he
    have hf : (fs.put p e).follow q name = fs.follow q name := by simp [follow, hq]
    rw [List.foldlM_cons] at h ⊢
    rw [hf]
    match hs : fs.follow q name with
    | .error kind => rw [hs] at h; cases h
    | .ok q' => rw [hs] at h; exact ih h

/-- A file is found where it was stored. -/
theorem read_store {fs fs' : FileSystem} {path : String} {content : Bytes}
    (h : fs.store path content = .ok fs') : fs'.read path = .ok content := by
  unfold store at h
  match hf : fs.find ((names path).reverse.dropWhile (· == "")).reverse with
  | .error kind => simp only [hf] at h; cases h
  | .ok place =>
    simp only [hf] at h
    change (if _ then _ else _) = _ at h
    split at h
    · cases h
    · rename_i hc
      obtain ⟨hd, hl⟩ := not_or.1 hc
      obtain rfl := tryPut_eq_ok h
      have hn : ((names path).reverse.dropWhile (· == "")).reverse = names path := by
        match hb : (names path).reverse with
        | [] => simpa using congrArg List.reverse hb
        | name :: _ =>
          have hname : name ≠ "" := fun he => hl (by simp [hb, he])
          rw [List.dropWhile_cons_of_neg (by simpa using hname), ← hb, List.reverse_reverse]
      rw [hn] at hf
      have hp : (fs.put place (.file content)).find (names path) = .ok place := by
        unfold find at hf ⊢
        split at hf
        · cases hf
        · rename_i hz; rw [if_neg hz]; exact foldlM_follow_put hd hf
      simp [read, hp, bind, Except.bind]

/-- What was written is read back. -/
theorem read_write {fs : FileSystem} {path : String} {content : Bytes}
    (h : (fs.write path content).1 = .ok ()) :
    (fs.write path content).2.read path = .ok content := by
  unfold write at h ⊢
  split at h
  · cases h
  · split at h
    · cases h
    · rename_i hs; exact read_store hs

/-- A path that is one name, and leads to the place of that name in the base directory. -/
structure Plain (name : String) : Prop where
  whole : names name = [name]
  below : Place.next [] name = [name]
  zeroless : '\x00' ∉ name.toList
  short : name.utf8ByteSize ≤ maxNameSize

theorem Plain.ne {name other : String} (h : Plain name) (hstays : Place.next [] other = []) :
    name ≠ other := by
  rintro rfl
  have hbelow := h.below
  rw [hstays] at hbelow
  cases hbelow

/-- A file in the base directory is stored unless something keeps it from that. -/
theorem write_plain {fs : FileSystem} {name : String} (h : Plain name)
    (hbase : fs.entry [] = some .directory) (hfile : fs.entry [name] ≠ some .directory)
    (content : Bytes) :
    fs.write name content =
      match fs.refusal [name] with
      | some kind => (.error kind, fs)
      | none => (.ok (), fs.put [name] (.file content)) := by
  have hempty : name ≠ "" := h.ne rfl
  have hdot : name ≠ "." := h.ne rfl
  have hparents : fs.makeParents name = (.ok (), fs) := by
    simp [makeParents, makeDirectories, makeBelow, h.whole, hempty, hdot]
  have hfind : fs.find [name] = .ok [name] := by
    have hfollow : fs.follow [] name = .ok [name] := by
      simp [follow, hbase, h.below, Nat.not_lt.mpr h.short]
    simp [find, h.zeroless, hfollow]
  have hstore : fs.store name content = fs.tryPut [name] (.file content) := by
    simp [store, h.whole, hempty, hfind, hfile, bind, Except.bind]
  rw [write, hparents]
  simp only [hstore, tryPut]
  cases fs.refusal [name] <;> rfl

/-! ## Writes that fail -/

/-- All that is in one file system is in another one too. -/
def Extends (fs fs' : FileSystem) : Prop :=
  ∀ place e, fs.entry place = some e → fs'.entry place = some e

theorem extends_refl (fs : FileSystem) : fs.Extends fs := fun _ _ h => h

theorem Extends.put {fs fs' : FileSystem} {place : Place} {e : Entry}
    (h : (fs.put place e).Extends fs') (hnone : fs.entry place = none) : fs.Extends fs' := by
  intro p old hold
  apply h
  have hne : p ≠ place := by
    rintro rfl
    rw [hnone] at hold
    cases hold
  rw [entry_put, if_neg hne, hold]

theorem extends_makeBelow (fs : FileSystem) (place : Place) (names : List String) :
    fs.Extends (fs.makeBelow place names).2 := by
  induction names generalizing fs place with
  | nil => exact extends_refl fs
  | cons name below ih =>
    unfold makeBelow
    cases fs.follow place name with
    | error kind => exact extends_refl fs
    | ok next =>
      cases hentry : fs.entry next with
      | none =>
        cases hput : fs.tryPut next .directory with
        | error kind => simpa only [hentry, hput] using extends_refl fs
        | ok fs' =>
          obtain rfl := tryPut_eq_ok hput
          simpa only [hentry, hput] using (ih (fs.put next .directory) next).put hentry
      | some e =>
        cases e with
        | directory => simpa only [hentry] using ih fs next
        | file content => simpa only [hentry] using extends_refl fs

theorem extends_makeParents (fs : FileSystem) (path : String) :
    fs.Extends (fs.makeParents path).2 := by
  unfold makeParents makeDirectories
  split
  · exact extends_refl fs
  · apply extends_makeBelow

/-- A write that fails takes no file away and changes none. -/
theorem extends_of_write_error {fs : FileSystem} {path : String} {content : Bytes} {kind : IoKind}
    (h : (fs.write path content).1 = .error kind) : fs.Extends (fs.write path content).2 := by
  have hparents := extends_makeParents fs path
  unfold write at h ⊢
  split at h
  · rename_i hmake
    rwa [hmake] at hparents
  · rename_i hmake
    rw [hmake] at hparents
    split at h
    · exact hparents
    · cases h

theorem Extends.foldlM_follow {fs fs' : FileSystem} {p q : Place} {names : List String}
    (h : fs.Extends fs') (hfollow : names.foldlM fs.follow q = .ok p) :
    names.foldlM fs'.follow q = .ok p := by
  induction names generalizing q with
  | nil => exact hfollow
  | cons name names ih =>
    rw [List.foldlM_cons] at hfollow ⊢
    have hq : fs.entry q = some .directory := by
      match hentry : fs.entry q with
      | none => simp [follow, hentry] at hfollow; cases hfollow
      | some (.file _) => simp [follow, hentry] at hfollow; cases hfollow
      | some .directory => rfl
    have hsame : fs'.follow q name = fs.follow q name := by
      simp [follow, hq, h q _ hq]
    rw [hsame]
    cases hnext : fs.follow q name with
    | error kind => rw [hnext] at hfollow; cases hfollow
    | ok next => rw [hnext] at hfollow; exact ih hfollow

theorem read_eq_ok {fs : FileSystem} {path : String} {content : Bytes} :
    fs.read path = .ok content ↔
      ∃ place, fs.find (names path) = .ok place ∧ fs.entry place = some (.file content) := by
  unfold read
  cases fs.find (names path) with
  | error kind => simp [bind, Except.bind]
  | ok place =>
    simp only [bind, Except.bind, Except.ok.injEq, exists_eq_left']
    cases fs.entry place with
    | none => simp
    | some e => cases e <;> simp

/-- A file reads in every extension as it did before. -/
theorem Extends.read {fs fs' : FileSystem} {path : String} {content : Bytes} (h : fs.Extends fs')
    (hread : fs.read path = .ok content) : fs'.read path = .ok content := by
  obtain ⟨place, hfind, hentry⟩ := read_eq_ok.mp hread
  apply read_eq_ok.mpr
  refine ⟨place, ?_, h _ _ hentry⟩
  unfold find at hfind ⊢
  split at hfind
  · cases hfind
  · rename_i hz
    rw [if_neg hz]
    exact h.foldlM_follow hfind

/-! ## Damage -/

/-- A damaged file is read with its damage. -/
theorem read_damage {fs : FileSystem} {path : String} {content : Bytes} (f : Bytes → Bytes)
    (hread : fs.read path = .ok content) : (fs.damage path f).read path = .ok (f content) := by
  obtain ⟨place, hfind, hentry⟩ := read_eq_ok.mp hread
  apply read_eq_ok.mpr
  have hfile : fs.entry place ≠ some .directory := by simp [hentry]
  have hdamage : fs.damage path f = fs.put place (.file (f content)) := by
    simp [damage, hfind, hentry]
  rw [hdamage]
  refine ⟨place, ?_, by simp⟩
  unfold find at hfind ⊢
  split at hfind
  · cases hfind
  · rename_i hz
    rw [if_neg hz]
    exact foldlM_follow_put hfile hfind

end FileSystem

end FireControl
