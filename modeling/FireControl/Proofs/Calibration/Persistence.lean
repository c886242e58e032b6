import FireControl.Proofs.Calibration.Codec
import FireControl.Proofs.Calibration.Editing

/-!
# Table, interpolators and file

A store keeps its table in three places that may differ: the table itself, the interpolators built
from it, and the file. Each request moves only some of them (`Desk.Effect`), and others may do
anything to the files in between. `explained` follows the table and the interpolators through a run:
the table is the one last opened with the settings since, the interpolators belong to the table at
the last building of them. `filed` follows the file: as long as nothing touched it after a save, it
holds the table of that save, whatever became of the store. `calibration_persists` joins them.
-/

namespace FireControl.Calibration

/-- What is asked of a store, and what happens to its files. -/
inductive Request where
  | set (cell : Cell) (value : Int16)
  | rebuild
  | save
  | reopen
  /-- Others change the files: they damage one, remove it or put something else in its place. -/
  | outside (change : FileSystem → FileSystem)

/-- Damage to the bytes of one file, such as a flipped bit or a lost end. -/
def Request.corrupt (path : String) (f : Bytes → Bytes) : Request :=
  .outside fun files => files.damage path f

/-- A store and the files around it. -/
structure Desk where
  store : Store
  files : FileSystem

/-- One request with the desks before and after it. -/
structure Step where
  before : Desk
  request : Request
  reply : Except Fault Unit
  after : Desk

namespace Desk

def answer (d : Desk) : Request → Except Fault Unit × Desk
  | .set cell value =>
    match d.store.set cell value with
    | .error cause => (.error (.noSuchCell cause), d)
    | .ok store => (.ok (), { d with store })
  | .rebuild => (.ok (), { d with store := d.store.rebuild })
  | .save =>
    match d.store.save d.files with
    | (result, files) => (result, { d with files })
  | .reopen =>
    match Store.open? d.files d.store.path with
    | .error fault => (.error fault, d)
    | .ok store => (.ok (), { d with store })
  | .outside change => (.ok (), { d with files := change d.files })

def act (d : Desk) (request : Request) : Step :=
  ⟨d, request, (d.answer request).1, (d.answer request).2⟩

/-- What a request does to a desk. -/
inductive Effect (d : Desk) : Request → Except Fault Unit → Desk → Prop
  | set {c value table} : d.store.table.set c value = .ok table →
      Effect d (.set c value) (.ok ()) { d with store := { d.store with table } }
  | refused {c value cause} :
      Effect d (.set c value) (.error (.noSuchCell cause)) d
  | rebuilt : Effect d .rebuild (.ok ()) { d with store := d.store.rebuild }
  | saved {files} : files.read d.store.path = .ok d.store.table.encode →
      Effect d .save (.ok ()) { d with files }
  | unsaved {kind files} : d.files.Extends files →
      Effect d .save (.error (.io kind)) { d with files }
  | reopened {table} : Store.load d.files d.store.path = .ok table →
      Effect d .reopen (.ok ()) { d with store := .ofTable d.store.path table }
  | unopened {fault} : Store.load d.files d.store.path = .error fault →
      Effect d .reopen (.error fault) d
  | outside {change} : Effect d (.outside change) (.ok ()) { d with files := change d.files }

theorem effect_of_set (d : Desk) (c : Cell) (value : Int16) :
    Effect d (.set c value) (d.act (.set c value)).reply (d.act (.set c value)).after := by
  simp only [act, answer, Store.set]
  cases hset : d.store.table.set c value with
  | error cause => exact .refused
  | ok table => exact .set hset

theorem effect_of_save (d : Desk) : Effect d .save (d.act .save).reply (d.act .save).after := by
  simp only [act, answer, Store.save]
  cases hwrite : (d.files.write d.store.path d.store.table.encode).1 with
  | error kind => exact .unsaved (FileSystem.extends_of_write_error hwrite)
  | ok => exact .saved (FileSystem.read_write hwrite)

theorem effect_of_reopen (d : Desk) :
    Effect d .reopen (d.act .reopen).reply (d.act .reopen).after := by
  simp only [act, answer, Store.open?]
  cases hload : Store.load d.files d.store.path with
  | error fault => exact .unopened hload
  | ok table => exact .reopened hload

theorem effect_of_act (d : Desk) (request : Request) :
    Effect d request (d.act request).reply (d.act request).after := by
  cases request with
  | set c value => exact effect_of_set d c value
  | rebuild => exact .rebuilt
  | save => exact effect_of_save d
  | reopen => exact effect_of_reopen d
  | outside change => exact .outside

theorem Effect.path {d d' : Desk} {request : Request} {reply : Except Fault Unit}
    (h : d.Effect request reply d') : d'.store.path = d.store.path := by
  cases h <;> rfl

end Desk

/-- The requests to a store so far, latest first, and the desk they lead to. -/
inductive Used (first : Store) : List Step → Desk → Prop
  | start {files} : first.Created → Used first [] ⟨first, files⟩
  | act {past d} (request : Request) : Used first past d →
      Used first (d.act request :: past) (d.act request).after

/-! ## What a run says -/

namespace Step

/-- The cell and the value that the step set. -/
def written (s : Step) : Option (Cell × Int16) :=
  match s.request, s.reply with
  | .set c value, .ok () => some (c, value)
  | _, _ => none

/-- The table that the step read from the file. -/
def loaded (s : Step) : Option Table :=
  match s.request with
  | .reopen => (Store.load s.before.files s.before.store.path).toOption
  | _ => none

/-- The step built interpolators. -/
def builds (s : Step) : Bool :=
  match s.request, s.reply with
  | .rebuild, .ok () => true
  | .reopen, .ok () => true
  | _, _ => false

/-- The step saved the table. -/
def Saves (s : Step) : Prop := s.request = .save ∧ s.reply = .ok ()

/-- The step changed what there is to read at the path of the store. -/
def Touches (s : Step) : Prop :=
  s.Saves ∨ ∃ change, s.request = .outside change ∧
    s.after.files.read s.before.store.path ≠ s.before.files.read s.before.store.path

end Step

/-- The table that was opened last. -/
def opened (first : Table) (past : List Step) : Table :=
  (past.findSome? Step.loaded).getD first

/-- The successful settings since, latest first. -/
def settings (past : List Step) : List (Cell × Int16) :=
  (past.takeWhile fun s => s.loaded.isNone).filterMap Step.written

/-- A table after settings, the earliest of which stands last. -/
def withSettings (t : Table) (settings : List (Cell × Int16)) : Except NoSuchCell Table :=
  settings.foldrM (fun setting t => t.set setting.1 setting.2) t

/-- The table as it was when interpolators were last built. -/
def built (first : Table) (past : List Step) : Table :=
  ((past.find? Step.builds).map fun s => s.after.store.table).getD first

/-- The table was saved, and nothing touched the file since. -/
def Filed (past : List Step) (table : Table) : Prop :=
  ∃ since saved earlier, past = since ++ saved :: earlier ∧ saved.Saves ∧
    saved.before.store.table = table ∧ ∀ s ∈ since, ¬ s.Touches

section Runs
variable {first : Store} {past : List Step} {d : Desk} {s : Step} {table : Table}

theorem filed_save (h : s.Saves) : Filed (s :: past) s.before.store.table := by
  refine ⟨[], s, past, rfl, h, rfl, ?_⟩
  intro x hx
  cases hx

theorem Filed.cons (h : Filed past table) (hs : ¬ s.Touches) :
    Filed (s :: past) table := by
  obtain ⟨since, saved, earlier, rfl, hsaved, htable, hsince⟩ := h
  refine ⟨s :: since, saved, earlier, rfl, hsaved, htable, ?_⟩
  intro x hx
  rcases List.mem_cons.mp hx with rfl | hx
  · exact hs
  · exact hsince x hx

theorem Filed.set (h : Filed past table) (d : Desk) (c : Cell)
    (value : Int16) : Filed (d.act (.set c value) :: past) table := by
  apply h.cons
  rintro (⟨hsave, -⟩ | ⟨_, houtside, -⟩)
  · cases hsave
  · cases houtside

theorem Filed.outside (h : Filed past table) {d : Desk} {change : FileSystem → FileSystem}
    (hsame : (change d.files).read d.store.path = d.files.read d.store.path) :
    Filed (d.act (.outside change) :: past) table := by
  apply h.cons
  rintro (⟨hsave, -⟩ | ⟨_, ⟨⟩, hchanged⟩)
  · cases hsave
  · exact hchanged hsame

theorem Filed.unsaved (h : Filed past table) {d : Desk} {fault : Fault}
    (hfailed : (d.act .save).reply = .error fault) : Filed (d.act .save :: past) table := by
  apply h.cons
  rintro (⟨-, hsaved⟩ | ⟨_, houtside, -⟩)
  · cases hfailed.symm.trans hsaved
  · cases houtside

theorem filed_cons_saved (h : Filed (s :: past) table) (hs : s.Saves) :
    s.before.store.table = table := by
  obtain ⟨since, saved, earlier, hpast, -, htable, hsince⟩ := h
  cases since with
  | nil => cases hpast; exact htable
  | cons x since =>
    cases hpast
    exact absurd (.inl hs) (hsince s List.mem_cons_self)

theorem Filed.of_cons (h : Filed (s :: past) table) (hs : ¬ s.Saves) :
    Filed past table ∧ ¬ s.Touches := by
  obtain ⟨since, saved, earlier, hpast, hsaved, htable, hsince⟩ := h
  cases since with
  | nil => cases hpast; exact absurd hsaved hs
  | cons x since =>
    cases hpast
    have hlater : ∀ s ∈ since, ¬ s.Touches := fun s hs => hsince s (List.mem_cons_of_mem _ hs)
    exact ⟨⟨since, saved, earlier, rfl, hsaved, htable, hlater⟩, hsince s List.mem_cons_self⟩

/-- The invariant of runs. -/
structure Explained (first : Store) (past : List Step) (d : Desk) : Prop where
  path : d.store.path = first.path
  table : withSettings (opened first.table past) (settings past) = .ok d.store.table
  ballistics : d.store.ballistics = .ofTable (built first.table past)
  file : ∀ table, Filed past table → d.files.read first.path = .ok table.encode

/-- A step that neither opens nor sets leaves the table explained as it was. -/
theorem withSettings_cons (hloaded : s.loaded = none) (hwritten : s.written = none) :
    withSettings (opened table (s :: past)) (settings (s :: past)) =
      withSettings (opened table past) (settings past) := by
  simp [opened, settings, hloaded, hwritten]

theorem withSettings_cons_set {c : Cell} {value : Int16} (hloaded : s.loaded = none)
    (hwritten : s.written = some (c, value)) :
    withSettings (opened table (s :: past)) (settings (s :: past)) =
      withSettings (opened table past) (settings past) >>= fun t => t.set c value := by
  simp [opened, settings, hloaded, hwritten, withSettings]

theorem withSettings_cons_opened {t : Table} (hloaded : s.loaded = some t) :
    withSettings (opened table (s :: past)) (settings (s :: past)) = .ok t := by
  simp only [opened, settings, List.findSome?_cons, List.takeWhile_cons, hloaded, Option.isNone_some]
  rfl

theorem built_cons (hbuilds : s.builds = false) : built table (s :: past) = built table past := by
  simp [built, hbuilds]

theorem built_cons_now (hbuilds : s.builds = true) :
    built table (s :: past) = s.after.store.table := by
  simp [built, hbuilds]

theorem Explained.table_step (h : Explained first past d) (hbefore : s.before = d)
    (heffect : d.Effect s.request s.reply s.after) :
    withSettings (opened first.table (s :: past)) (settings (s :: past)) =
      .ok s.after.store.table := by
  obtain ⟨before, request, reply, after⟩ := s
  obtain rfl : before = d := hbefore
  change before.Effect request reply after at heffect
  cases heffect with
  | set hset =>
    rw [withSettings_cons_set rfl rfl, h.table]
    exact hset
  | reopened hload =>
    apply withSettings_cons_opened
    simp only [Step.loaded, hload]
    rfl
  | unopened hload =>
    rw [withSettings_cons _ rfl]
    · exact h.table
    · simp only [Step.loaded, hload]
      rfl
  | refused | rebuilt | saved | unsaved | outside =>
    rw [withSettings_cons rfl rfl]
    exact h.table

theorem Explained.ballistics_step (h : Explained first past d)
    (heffect : d.Effect s.request s.reply s.after) :
    s.after.store.ballistics = .ofTable (built first.table (s :: past)) := by
  obtain ⟨before, request, reply, after⟩ := s
  change d.Effect request reply after at heffect
  cases heffect with
  | rebuilt | reopened => rw [built_cons_now rfl]; rfl
  | set | refused | saved | unsaved | unopened | outside => rw [built_cons rfl]; exact h.ballistics

theorem Explained.file_step (h : Explained first past d) (hbefore : s.before = d)
    (heffect : d.Effect s.request s.reply s.after) (hfiled : Filed (s :: past) table) :
    s.after.files.read first.path = .ok table.encode := by
  obtain ⟨before, request, reply, after⟩ := s
  obtain rfl : before = d := hbefore
  change before.Effect request reply after at heffect
  cases heffect with
  | saved hread =>
    obtain rfl := filed_cons_saved hfiled ⟨rfl, rfl⟩
    rwa [h.path] at hread
  | unsaved hextends => exact hextends.read (h.file table (hfiled.of_cons nofun).1)
  | @outside change =>
    obtain ⟨hpast, htouches⟩ := hfiled.of_cons nofun
    have hsame : (change before.files).read before.store.path =
        before.files.read before.store.path := by
      apply Classical.not_not.mp
      intro hne
      exact htouches (.inr ⟨change, rfl, hne⟩)
    rw [h.path] at hsame
    rw [hsame]
    exact h.file table hpast
  | set | refused | rebuilt | reopened | unopened => exact h.file table (hfiled.of_cons nofun).1

theorem Explained.step (h : Explained first past d) (hbefore : s.before = d)
    (heffect : d.Effect s.request s.reply s.after) : Explained first (s :: past) s.after where
  path := by
    rw [← h.path]
    exact heffect.path
  table := h.table_step hbefore heffect
  ballistics := h.ballistics_step heffect
  file _ := h.file_step hbefore heffect

theorem explained (h : Used first past d) : Explained first past d := by
  induction h with
  | start hcreated =>
    refine ⟨rfl, rfl, hcreated.ballistics, ?_⟩
    rintro table ⟨since, saved, earlier, hpast, -⟩
    cases since <;> cases hpast
  | act request _ ih => exact ih.step rfl (Desk.effect_of_act _ request)

theorem load_of_read {files : FileSystem} {path : String}
    (h : files.read path = .ok table.encode) : Store.load files path = .ok table := by
  rw [Store.load, h]
  exact table.decode_encode

theorem Desk.act_reopen (h : Store.load d.files d.store.path = .ok table) :
    (d.act .reopen).reply = .ok () ∧ (d.act .reopen).after.store = .ofTable d.store.path table := by
  simp only [act, answer, Store.open?, h]
  exact ⟨rfl, rfl⟩

theorem Desk.store_of_error {request : Request} {fault : Fault}
    (h : (d.act request).reply = .error fault) : (d.act request).after.store = d.store := by
  have heffect := d.effect_of_act request
  rw [h] at heffect
  generalize (d.act request).after = after at heffect
  cases heffect <;> rfl

theorem get_blank {c : Cell} (hc : c.OnGrid) : Table.get {} c = .ok 0 := by
  obtain ⟨kind, i, j⟩ := c
  have hi : i < 5 := hc.1
  cases kind with
  | drop => simp [Table.get_drop hi]
  | lead =>
    have hj : j < 4 := hc.2 rfl
    simp [Table.get_lead hi hj]

theorem openOrBlank_of_ok {files : FileSystem} {path : String} {store : Store}
    (h : Store.open? files path = .ok store) : Store.openOrBlank files path = (store, none) := by
  unfold Store.open? at h
  unfold Store.openOrBlank
  cases hload : Store.load files path with
  | error fault => rw [hload] at h; cases h
  | ok table => rw [hload] at h; cases h; rfl

theorem openOrBlank_of_error {files : FileSystem} {path : String} {fault : Fault}
    (h : Store.open? files path = .error fault) :
    Store.openOrBlank files path = (.ofTable path {}, some fault) := by
  unfold Store.open? at h
  unfold Store.openOrBlank
  cases hload : Store.load files path with
  | error fault => rw [hload] at h; cases h; rfl
  | ok table => rw [hload] at h; cases h

/-- Whatever a store was asked, and whatever happened to its files: the table is the one opened last
with the successful settings since, in order; the interpolators are those of the table at the last
building; a request that fails changes neither, and saving never does. A save succeeds exactly if the
file system writes the table as it is now, and fails for its reason; and as long as nothing touches
the file, opening it again gives that table with interpolators of its own; a damaged file is judged
by the bytes it is left with. Where a store cannot be opened, and only there, one opens the blank
table instead, together with the reason. -/
theorem calibration_persists (h : Used first past d) :
    withSettings (opened first.table past) (settings past) = .ok d.store.table ∧
      d.store.ballistics = .ofTable (built first.table past) ∧
      (∀ request fault, (d.act request).reply = .error fault →
        (d.act request).after.store = d.store) ∧
      (d.act .save).after.store = d.store ∧
      (d.act .save).reply =
        (d.files.write first.path d.store.table.encode).1.mapError .io ∧
      ((d.act .save).reply = .ok () →
        (d.act .save).after.files.read first.path = .ok d.store.table.encode) ∧
      (∀ table, Filed past table → (d.act .reopen).reply = .ok () ∧
        (d.act .reopen).after.store = .ofTable first.path table) ∧
      (∀ table f, Filed past table →
        Store.load (d.act (.corrupt first.path f)).after.files first.path =
          Table.decode (f table.encode)) ∧
      ∀ files path,
        (∀ store, Store.open? files path = .ok store →
          Store.openOrBlank files path = (store, none)) ∧
        ∀ fault, Store.open? files path = .error fault →
          ∃ blank, Store.openOrBlank files path = (.ofTable path blank, some fault) ∧
            ∀ c : Cell, c.OnGrid → blank.get c = .ok 0 := by
  have hexplained := explained h
  refine ⟨hexplained.table, hexplained.ballistics, fun _ _ => Desk.store_of_error, rfl, ?_⟩
  refine ⟨by rw [← hexplained.path]; rfl, ?_, ?_, ?_, ?_⟩
  · intro hreply
    exact (explained (h.act .save)).file _ (filed_save ⟨rfl, hreply⟩)
  · intro table hfiled
    have hread := hexplained.file table hfiled
    rw [← hexplained.path] at hread ⊢
    exact Desk.act_reopen (load_of_read hread)
  · intro table f hfiled
    have hread := FileSystem.read_damage f (hexplained.file table hfiled)
    simp only [Desk.act, Desk.answer, Request.corrupt, Store.load, hread]
  · intro files path
    refine ⟨fun _ => openOrBlank_of_ok, ?_⟩
    intro fault hfault
    exact ⟨{}, openOrBlank_of_error hfault, fun _ => get_blank⟩

theorem plain_cal : FileSystem.Plain "cal" where
  whole := by rw [FileSystem.names]; rfl
  below := rfl
  zeroless := by decide
  short := by decide

/-- A table whose interpolators and file are both behind it, and each behind at another setting: one
save succeeded, and then nothing more was allowed to be stored. -/
theorem calibration_persists_behind :
    ∃ past d behind saved, Used (.ofTable "cal" {}) past d ∧
      (∃ s ∈ past, s.Saves ∧ s.before.store.table = saved) ∧
      (∃ s ∈ past, s.request = .save ∧ s.reply = .error (.io .permissionDenied)) ∧
      d.store.ballistics = .ofTable behind ∧ (d.act .reopen).reply = .ok () ∧
      (d.act .reopen).after.store = .ofTable "cal" saved ∧
      behind.get ⟨.lead, 2, 1⟩ = .ok (-8) ∧ behind.get ⟨.drop, 0, 0⟩ = .ok 0 ∧
      saved.get ⟨.lead, 2, 1⟩ = .ok (-8) ∧ saved.get ⟨.drop, 0, 0⟩ = .ok 30 ∧
      d.store.get ⟨.lead, 2, 1⟩ = .ok (-8) ∧ d.store.get ⟨.drop, 0, 0⟩ = .ok 5 := by
  let start : Desk := ⟨.ofTable "cal" {}, .empty⟩
  let led := start.act (.set ⟨.lead, 2, 1⟩ (-8))
  let rebuilt := led.after.act .rebuild
  let raised := rebuilt.after.act (.set ⟨.drop, 0, 0⟩ 30)
  let saved := raised.after.act .save
  let lowered := saved.after.act (.set ⟨.drop, 0, 0⟩ 5)
  let locked := lowered.after.act (.outside (·.refuse .permissionDenied))
  let failed := locked.after.act .save
  let denied := failed.after.act (.set ⟨.drop, 5, 0⟩ 1)
  let past := [denied, failed, locked, lowered, saved, raised, rebuilt, led]
  have hused : Used start.store past denied.after :=
    (((((((Used.start (.ofTable ..)).act _).act _).act _).act _).act _).act _).act _ |>.act _
  have hwrite (content : Bytes) : FileSystem.empty.write "cal" content =
      (.ok (), FileSystem.empty.put ["cal"] (.file content)) :=
    FileSystem.write_plain plain_cal rfl (by decide) content
  have hdenied (content content' : Bytes) :
      (((FileSystem.empty.write "cal" content).2.refuse .permissionDenied).write "cal" content').1 =
        .error .permissionDenied := by
    rw [hwrite, FileSystem.write_plain plain_cal rfl (by simp [FileSystem.refuse])]
    rfl
  have hsaved : saved.reply = .ok () := congrArg (·.1.mapError Fault.io) (hwrite _)
  have hfailed : failed.reply = .error (.io .permissionDenied) :=
    congrArg (·.mapError Fault.io) (hdenied _ _)
  have hsince : Filed [lowered, saved, raised, rebuilt, led] raised.after.store.table :=
    (filed_save ⟨rfl, hsaved⟩).set saved.after _ _
  have hlocked : Filed [locked, lowered, saved, raised, rebuilt, led] raised.after.store.table :=
    hsince.outside (FileSystem.read_refuse ..)
  have hfiled : Filed past raised.after.store.table :=
    (hlocked.unsaved hfailed).set failed.after _ _
  obtain ⟨-, hballistics, -, -, -, -, hreopen, -⟩ := calibration_persists hused
  obtain ⟨hreply, hstore⟩ := hreopen _ hfiled
  exact ⟨_, _, _, _, hused, ⟨saved, by simp [past], ⟨rfl, hsaved⟩, rfl⟩,
    ⟨failed, by simp [past], rfl, hfailed⟩, hballistics, hreply, hstore, rfl, rfl, rfl, rfl, rfl, rfl⟩

end Runs

end FireControl.Calibration
