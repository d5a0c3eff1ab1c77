import MaxminddbRust.Linearizability

/-!
`open.rs` and what `lib.rs` has of opening a database.

* `FileSystem`, `OsFile`: the files of the operating system. A path may get another file at any
  time; the bytes of a file do not change, as `open_database_mmap` has it.
* `DatabaseArg`: the argument `database` as the code looks at it. `openDatabase`: opening, as a
  program over the files that may call Python code; `openResult`: what it comes to alone.
* `openDatabase_linearizable`: opening is atomic, whatever becomes of the paths meanwhile.
* `openResult_agree`: every mode gives the reader of the same bytes, or fails alike.
-/

namespace MaxminddbRust

open Concurrent

/-! ### The operating system -/

/-- A path as the operating system has it. -/
structure OsPath where
  bytes : List UInt8
  deriving DecidableEq, Repr

/-- `std::io::ErrorKind`, as far as the code tells errors apart. -/
inductive IoErrorKind where
  | NotFound
  | Other
  deriving DecidableEq, Repr

/-- `std::io::Error`. -/
structure IoError where
  kind : IoErrorKind
  text : String
  deriving DecidableEq, Repr

/-- A file: its bytes, and whether it can be mapped and read. -/
structure OsFile where
  bytes : List UInt8
  map : Except IoError Unit
  read : Except IoError Unit

/-- What opening each path gives. -/
abbrev FileSystem := OsPath → Except IoError OsFile

/-! ### Python's side -/

/-- An exception that Python code raises, or a conversion of what it returns. -/
inductive PyException where
  | attributeError (id : ℕ)
  | other (id : ℕ)
  deriving DecidableEq, Repr

/-- A piece of a text about a database. -/
inductive OpenPiece where
  | str (s : String)
  | path (p : OsPath)
  | io (e : IoError)
  deriving DecidableEq, Repr

/-- The exceptions that opening raises: its own, and those of the Python code it calls. -/
inductive OpenErr where
  | valueError (message : String)
  | fileNotFoundError (message : List OpenPiece)
  | ioError (message : List OpenPiece)
  | invalidDatabaseError (message : List OpenPiece)
  | python (e : PyException)
  deriving DecidableEq, Repr

/-- What `__fspath__` returns: a `str`, or an object that is no path. -/
inductive FsPath where
  | str (s : PyStr)
  | other (err : PyException)

/-- The argument `database`: whether it is a `str`, and what its `__fspath__`, its attribute
`name` as a `str`, the `repr` of its class and the bytes of its `read()` are. -/
structure DatabaseArg where
  str : Option PyStr
  fspath : Except PyException FsPath
  name : Option String
  typeRepr : Except PyException String
  read : Except PyException (List UInt8)

/-- What opening uses of other libraries: the conversion of a `str` to an `OsString`, and
`maxminddb::Reader::from_source`. -/
structure OpenLibs where
  extractOsString : PyStr → Except PyException OsPath
  fromSource : List UInt8 → Except MaxMindDbError MaxMindReader

/-- What an atomic step of opening is seen to do, or the step of another process that gives a
path another file. -/
inductive OpenLabel where
  | fspath
  | name
  | typeRepr
  | read
  | openFile (path : OsPath) (found : Except IoError OsFile)
  | mapFile
  | readFile
  | replace

/-- A program that opens something. -/
abbrev Opening (α : Type) := Prog OpenLabel FileSystem (Except OpenErr α)

/-! ### Modes and arguments -/

def modeAuto : Int32 := 0
def modeMmapExt : Int32 := 1
def modeMmap : Int32 := 2
def modeFile : Int32 := 4
def modeMemory : Int32 := 8
def modeFd : Int32 := 16

/-- `OpenMode`. -/
inductive OpenMode where
  | MmapExt
  | Mmap
  | File
  | Memory
  | Fd
  deriving DecidableEq, Repr

/-- `OpenMode::try_from`, which `resolve_open_mode` is. -/
def resolveOpenMode (mode : Int32) : Except OpenErr OpenMode :=
  if mode = modeAuto then .ok .Mmap
  else if mode = modeMmapExt then .ok .MmapExt
  else if mode = modeMmap then .ok .Mmap
  else if mode = modeFile then .ok .File
  else if mode = modeMemory then .ok .Memory
  else if mode = modeFd then .ok .Fd
  else .error (.valueError s!"Unsupported open mode ({mode})")

/-- `ERR_BAD_DATABASE_ARG`. -/
def errBadDatabaseArg : String := "database must be a string, PathLike, or file descriptor"

/-- A step that runs Python code. -/
def python {α : Type} (l : OpenLabel) (r : Except PyException α) :
    Prog OpenLabel FileSystem (Except PyException α) :=
  .atom (fun _ => l) id fun _ => .ret r

variable (libs : OpenLibs)

/-- The last lines of `extract_database_path`: a `str` with a UTF-8 text is its path, other ones
are converted as the operating system does. -/
def extractPath : FsPath → Except OpenErr OsPath
  | .str s => match s.toStr with
      | some text => .ok ⟨utf8Bytes text⟩
      | none => (libs.extractOsString s).mapError .python
  | .other err => .error (.python err)

/-- `extract_database_path`. -/
def extractDatabasePath (database : DatabaseArg) : Opening OsPath :=
  match database.str with
  | some s => .ret (extractPath libs (.str s))
  | none => (python .fspath database.fspath).bind fun
      | .ok path => .ret (extractPath libs path)
      | .error (.attributeError _) => .ret (.error (.valueError errBadDatabaseArg))
      | .error err => .ret (.error (.python err))

/-! ### The sources -/

/-- `open_file`. -/
def openFile (path : OsPath) : Opening OsFile :=
  .atom (fun files => .openFile path (files path)) id fun files =>
    .ret ((files path).mapError fun err => match err.kind with
      | .NotFound => .fileNotFoundError [.io err]
      | .Other => .ioError [.io err])

/-- What `std::fs::read` does with what it has opened. -/
def readOpened : Except IoError OsFile → Prog OpenLabel FileSystem (Except IoError (List UInt8))
  | .error err => .ret (.error err)
  | .ok file => .atom (fun _ => .readFile) id fun _ => .ret (file.read.map fun _ => file.bytes)

/-- `std::fs::read`, which opens the file and reads it. -/
def fsRead (path : OsPath) : Prog OpenLabel FileSystem (Except IoError (List UInt8)) :=
  .atom (fun files => .openFile path (files path)) id fun files => readOpened (files path)

/-- `reader_from_source`. -/
def readerFromSource (sourceName : OpenPiece) (source : List UInt8) :
    Except OpenErr MaxMindReader :=
  (libs.fromSource source).mapError fun _ => .invalidDatabaseError
    [.str "Error opening database file (", sourceName, .str "). Is this a valid MaxMind DB file?"]

/-- `load_reader`. -/
def loadReader (path : OsPath) (loadSource : Opening (List UInt8)) : Opening MaxMindReader :=
  loadSource.andThen fun source => .ret (readerFromSource libs (.path path) source)

/-- The source that `open_database_mmap` creates its reader with. -/
def openDatabaseMmap (path : OsPath) : Opening ReaderSource :=
  (loadReader libs path <| (openFile path).andThen fun file =>
    .atom (fun _ => .mapFile) id fun _ =>
      .ret ((file.map.map fun _ => file.bytes).mapError fun err =>
        .ioError [.str "Failed to memory-map database: ", .io err])).map (Except.map .Mmap)

/-- The source that `open_database_memory` creates its reader with. -/
def openDatabaseMemory (path : OsPath) : Opening ReaderSource :=
  (loadReader libs path <| (fsRead path).map <| Except.mapError fun err => match err.kind with
    | .NotFound => .fileNotFoundError [.io err]
    | .Other => .ioError [.str "Failed to read database file: ", .io err]).map
      (Except.map .Memory)

/-- `fd_database_name`. -/
def fdDatabaseName (database : DatabaseArg) : Opening String :=
  .atom (fun _ => .name) id fun _ => match database.name with
    | some name => .ret (.ok name)
    | none => (python .typeRepr database.typeRepr).map fun r =>
        (r.map fun typeRepr => s!"<{typeRepr}>").mapError .python

/-- The source that `open_database_fd` creates its reader with. -/
def openDatabaseFd (database : DatabaseArg) : Opening ReaderSource :=
  (fdDatabaseName database).andThen fun filename =>
    ((python .read database.read).map (Except.mapError .python)).andThen fun buffer =>
      .ret ((readerFromSource libs (.str filename) buffer).map .Memory)

/-- `open_reader_from_mode`. -/
def openReaderFromMode (database : DatabaseArg) : OpenMode → Opening ReaderSource
  | .Mmap | .MmapExt => (extractDatabasePath libs database).andThen (openDatabaseMmap libs)
  | .File | .Memory => (extractDatabasePath libs database).andThen (openDatabaseMemory libs)
  | .Fd => openDatabaseFd libs database

/-- `open_database`, which is `Reader::new`. -/
def openDatabase (database : DatabaseArg) (mode : Int32) : Opening ReaderSource :=
  match resolveOpenMode mode with
  | .error e => .ret (.error e)
  | .ok openMode => openReaderFromMode libs database openMode

/-- What opening comes to while the files stay as they are. -/
def openResult (files : FileSystem) (database : DatabaseArg) (mode : Int32) :
    Except OpenErr ReaderSource :=
  (openDatabase libs database mode).value files

/-! ### One look at the files -/

/-- A label at which the files are looked at or changed. -/
def OpenLabel.commits : OpenLabel → Bool
  | openFile _ _ | replace => true
  | _ => false

/-- What a step of opening does: it changes nothing, and where it opens a file, it finds what is
there. -/
def OpenStep (files : FileSystem) (l : OpenLabel) (files' : FileSystem) : Prop :=
  files' = files ∧ l ≠ .replace ∧ ∀ path found, l = .openFile path found → found = files path

/-- The result is that of files as they were found at one step, or of all files. -/
def ReadsOnce {α : Type} (value : FileSystem → α) (tr : List OpenLabel) (a : α) : Prop :=
  tr.filter OpenLabel.commits = [] ∧ (∀ files, value files = a) ∨
    ∃ path found, tr.filter OpenLabel.commits = [.openFile path found] ∧
      ∀ files, files path = found → value files = a

/-- The program looks at the files at one step at most. -/
def LooksOnce {α : Type} (p : Prog OpenLabel FileSystem α) : Prop :=
  ∀ I : FileSystem → Prop, p.Sat I OpenStep (ReadsOnce p.value)

/-- The program does not look at the files. -/
def Blind {α : Type} (p : Prog OpenLabel FileSystem α) (v : α) : Prop :=
  ∀ I : FileSystem → Prop, p.Sat I OpenStep fun tr a => tr.filter OpenLabel.commits = [] ∧ a = v

section Looks

open Prog

variable {libs} {α β : Type} {p : Prog OpenLabel FileSystem α}

lemma blind_ret (a : α) : Blind (.ret a) a := fun _ => ⟨rfl, rfl⟩

/-- A step that runs Python code, maps a file or reads one. -/
lemma Blind.atom {l : OpenLabel} (hl : l.commits = false) {v : α} (hp : Blind p v) :
    Blind (.atom (fun _ => l) id fun _ => p) v := by
  refine fun I files hI => ⟨hI, ⟨rfl, ?_, ?_⟩, (hp I).imp fun tr a h => ⟨?_, h.2⟩⟩
  · rintro rfl
    cases hl
  · rintro path found rfl
    cases hl
  · rw [List.filter_cons_of_neg (by rw [hl]; exact Bool.false_ne_true), h.1]

lemma Blind.value {v : α} (h : Blind p v) (files : FileSystem) : p.value files = v :=
  (Sat.exec (I := fun _ => True) (h _) trivial).2.2

lemma Blind.looksOnce {v : α} (h : Blind p v) : LooksOnce p := fun I =>
  (h I).imp fun _ _ ⟨htr, ha⟩ => Or.inl ⟨htr, fun files => (h.value files).trans ha.symm⟩

/-- Opening leaves the files as they are. -/
lemma LooksOnce.final (h : LooksOnce p) (files : FileSystem) : p.final files = files :=
  (Sat.exec (I := fun files' => files' = files) (h _) rfl).1

/-- Nothing looked at before. -/
lemma Blind.bind {f : α → Prog OpenLabel FileSystem β} {v : α} (h : Blind p v)
    (hf : LooksOnce (f v)) : LooksOnce (p.bind f) := by
  refine fun I => Sat.bind (h I) fun tr a ⟨htr, ha⟩ => ?_
  subst ha
  refine (hf I).imp fun tr' b hb => ?_
  have hvalue : ∀ files, (p.bind f).value files = (f a).value files := fun files => by
    rw [value_bind, h.value, h.looksOnce.final]
  rw [ReadsOnce, List.filter_append, htr, List.nil_append]
  simpa only [ReadsOnce, hvalue] using hb

/-- Nothing looked at at all. -/
lemma Blind.bind_blind {f : α → Prog OpenLabel FileSystem β} {v : α} {b : β} (h : Blind p v)
    (hf : Blind (f v) b) : Blind (p.bind f) b := by
  refine fun I => Sat.bind (h I) fun tr a ⟨htr, ha⟩ => ?_
  subst ha
  refine (hf I).imp fun tr' b' ⟨htr', hb⟩ => ⟨?_, hb⟩
  rw [List.filter_append, htr, htr', List.append_nil]

/-- Nothing looked at afterwards. -/
lemma LooksOnce.bind {f : α → Prog OpenLabel FileSystem β} {v : α → β} (h : LooksOnce p)
    (hf : ∀ a, Blind (f a) (v a)) : LooksOnce (p.bind f) := by
  refine fun I => Sat.bind (h I) fun tr a ha => ?_
  refine (hf a I).imp fun tr' b ⟨htr', hb⟩ => ?_
  have hvalue : ∀ files, (p.bind f).value files = v (p.value files) := fun files => by
    rw [value_bind, (hf _).value]
  rw [ReadsOnce, List.filter_append, htr', List.append_nil]
  simp only [hvalue, hb]
  rcases ha with ⟨htr, ha⟩ | ⟨path, found, htr, ha⟩
  · exact Or.inl ⟨htr, fun files => congrArg v (ha files)⟩
  · exact Or.inr ⟨path, found, htr, fun files hfiles => congrArg v (ha files hfiles)⟩

/-- The rest of a sequence whose first program looks at nothing. -/
lemma Blind.andThen {p : Prog OpenLabel FileSystem (Except OpenErr α)} {f : α → Opening β}
    {v : Except OpenErr α} (h : Blind p v) (hf : ∀ a, v = .ok a → LooksOnce (f a)) :
    LooksOnce (p.andThen f) := by
  refine h.bind ?_
  cases v with
  | error e => exact (blind_ret _).looksOnce
  | ok a => exact hf a rfl

/-- A sequence in which nothing is looked at after the first program. -/
lemma LooksOnce.andThen {p : Opening α} {f : α → Opening β} {v : α → Except OpenErr β}
    (h : LooksOnce p) (hf : ∀ a, Blind (f a) (v a)) : LooksOnce (p.andThen f) := by
  refine h.bind (v := fun r => r.bind v) fun r => ?_
  cases r with
  | error e => exact blind_ret _
  | ok a => exact hf a

lemma LooksOnce.map {f : α → β} (h : LooksOnce p) : LooksOnce (p.map f) :=
  h.bind fun a => blind_ret (f a)

lemma Blind.map {f : α → β} {v : α} (h : Blind p v) : Blind (p.map f) (f v) :=
  h.bind_blind (blind_ret (f v))

/-- The step that opens a file, where the rest looks at nothing else. -/
lemma looksOnce_open {path : OsPath} {next : Except IoError OsFile → Prog OpenLabel FileSystem α}
    {v : Except IoError OsFile → α} (hnext : ∀ found, Blind (next found) (v found)) :
    LooksOnce (.atom (fun files => .openFile path (files path)) id fun files =>
      next (files path)) := by
  refine fun I files hI => ⟨hI, ⟨rfl, OpenLabel.noConfusion, ?_⟩, ?_⟩
  · intro path' found h
    cases h
    rfl
  · refine (hnext (files path) I).imp fun tr a ⟨htr, ha⟩ => Or.inr ⟨path, files path, ?_, ?_⟩
    · rw [List.filter_cons_of_pos rfl, htr]
    · intro files' hfiles'
      rw [value_atom, (hnext _).value, hfiles', ha]

lemma blind_python {l : OpenLabel} (hl : l.commits = false) (r : Except PyException α) :
    Blind (python l r) r := Blind.atom hl (blind_ret r)

lemma blind_extractDatabasePath (libs : OpenLibs) (database : DatabaseArg) :
    ∃ r, Blind (extractDatabasePath libs database) r := by
  rw [extractDatabasePath]
  cases database.str with
  | some s => exact ⟨_, blind_ret _⟩
  | none =>
      have hpython := blind_python (l := .fspath) rfl database.fspath
      cases hfspath : database.fspath with
      | ok path =>
          rw [hfspath] at hpython
          exact ⟨_, hpython.bind_blind (blind_ret _)⟩
      | error err =>
          rw [hfspath] at hpython
          cases err with
          | attributeError id => exact ⟨_, hpython.bind_blind (blind_ret _)⟩
          | other id => exact ⟨_, hpython.bind_blind (blind_ret _)⟩

lemma looksOnce_loadReader (path : OsPath) {loadSource : Opening (List UInt8)}
    (h : LooksOnce loadSource) : LooksOnce (loadReader libs path loadSource) :=
  h.andThen fun _ => blind_ret _

lemma looksOnce_openDatabaseMmap (path : OsPath) : LooksOnce (openDatabaseMmap libs path) := by
  have hopen : LooksOnce (openFile path) := looksOnce_open fun _ => blind_ret _
  exact (looksOnce_loadReader path (hopen.andThen fun _ => .atom rfl (blind_ret _))).map

lemma looksOnce_openDatabaseMemory (path : OsPath) : LooksOnce (openDatabaseMemory libs path) := by
  have hopened : ∀ found, Blind (readOpened found)
      (found.bind fun file => file.read.map fun _ => file.bytes) := fun found => by
    cases found with
    | error err => exact blind_ret _
    | ok file => exact .atom rfl (blind_ret _)
  have hread : LooksOnce (fsRead path) := looksOnce_open hopened
  exact (looksOnce_loadReader path hread.map).map

lemma looksOnce_openDatabaseFd (database : DatabaseArg) :
    LooksOnce (openDatabaseFd libs database) := by
  have hname : ∃ r, Blind (fdDatabaseName database) r := by
    rw [fdDatabaseName]
    cases database.name with
    | some name => exact ⟨_, .atom rfl (blind_ret _)⟩
    | none => exact ⟨_, .atom rfl (blind_python rfl _).map⟩
  obtain ⟨r, hname⟩ := hname
  exact hname.andThen fun filename _ =>
    (blind_python rfl database.read).map.andThen fun buffer _ => (blind_ret _).looksOnce

/-- **Opening looks at the files once**, in every mode. -/
lemma looksOnce_openDatabase (database : DatabaseArg) (mode : Int32) :
    LooksOnce (openDatabase libs database mode) := by
  rw [openDatabase]
  cases resolveOpenMode mode with
  | error e => exact (blind_ret _).looksOnce
  | ok openMode =>
      obtain ⟨r, hpath⟩ := blind_extractDatabasePath libs database
      cases openMode with
      | Mmap | MmapExt => exact hpath.andThen fun path _ => looksOnce_openDatabaseMmap path
      | File | Memory => exact hpath.andThen fun path _ => looksOnce_openDatabaseMemory path
      | Fd => exact looksOnce_openDatabaseFd database

end Looks

/-! ### Files that are replaced -/

/-- Opening a database, or giving a path another file, as another process may. -/
inductive FileCall where
  | openDatabase (database : DatabaseArg) (mode : Int32)
  | replace (path : OsPath) (entry : Except IoError OsFile)

/-- What a call returns; a replacement returns nothing. -/
abbrev FileResult := Option (Except OpenErr ReaderSource)

/-- The program of a call. -/
def FileCall.prog : FileCall → Prog OpenLabel FileSystem FileResult
  | openDatabase database mode => (MaxminddbRust.openDatabase libs database mode).map some
  | replace path entry => .atom (fun _ => .replace)
      (fun files => Function.update files path entry) fun _ => .ret none

/-- Callers that open databases while files are replaced. -/
def fileSystem : System FileCall OpenLabel FileSystem FileResult where
  prog := FileCall.prog libs
  canStart _ _ := True
  env _ _ _ := False

/-- Files that are opened and replaced at once. -/
def fileObject (files : FileSystem) : AtomicObject FileCall FileSystem FileResult where
  init := files
  step c files := match c with
    | .openDatabase database mode => (some (openResult libs files database mode), files)
    | .replace path entry => (none, Function.update files path entry)

/-- What each call does at each step, and what it returns. -/
def fileContract : Contract FileCall OpenLabel FileSystem FileResult where
  inv _ := True
  live _ _ := True
  guar c files l files' := match c with
    | .openDatabase _ _ => OpenStep files l files'
    | .replace path entry => l = .replace ∧ files' = Function.update files path entry
  post c tr a := match c with
    | .openDatabase database mode =>
        ReadsOnce (fun files => some (openResult libs files database mode)) tr a
    | .replace _ _ => tr = [.replace] ∧ a = none

lemma fileContract_holds : (fileContract libs).Holds (fileSystem libs) where
  start _ _ _ _ := trivial
  prog c := by
    cases c with
    | openDatabase database mode =>
        have hvalue : ∀ files, (FileCall.prog libs (.openDatabase database mode)).value files
            = some (openResult libs files database mode) := fun files => by
          rw [FileCall.prog, Prog.map, Prog.value_bind]
          rfl
        refine Prog.Sat.imp ((looksOnce_openDatabase database mode).map (f := some) _)
          fun tr a h => ?_
        have hlooks : ReadsOnce
            (FileCall.prog libs (.openDatabase database mode)).value tr a := h
        simpa only [fileContract, ReadsOnce, hvalue] using hlooks
    | replace path entry => exact fun files _ => ⟨⟨trivial, trivial⟩, ⟨rfl, rfl⟩, rfl, rfl⟩
  noninterference _ _ _ _ _ _ _ _ := trivial
  env_inv _ _ _ h _ := h.elim
  env_live _ _ _ _ h _ _ _ := h.elim

lemma fileContract_linearizes (files : FileSystem) :
    Linearizes (fileContract libs) (fileSystem libs) (fileObject libs files) id id
      OpenLabel.commits fun _ => True where
  silent c s l s' _ hguar hl := by
    cases c with
    | openDatabase database mode => exact hguar.1
    | replace path entry =>
        obtain ⟨rfl, -⟩ := hguar
        cases hl
  commit c s l s' tr x _ _ hguar hl hmem hpost := by
    have hin : l ∈ tr.filter OpenLabel.commits := List.mem_filter.mpr ⟨hmem, hl⟩
    cases c with
    | openDatabase database mode =>
        obtain ⟨rfl, -, hfound⟩ := hguar
        rcases hpost with ⟨htr, -⟩ | ⟨path, found, htr, hvalue⟩
        · rw [htr] at hin
          cases hin
        · rw [htr] at hin
          obtain rfl := List.mem_singleton.mp hin
          exact Prod.ext (hvalue s' (hfound path found rfl).symm) rfl
    | replace path entry =>
        obtain ⟨rfl, rfl⟩ := hguar
        obtain ⟨-, rfl⟩ := hpost
        rfl
  once c tr x _ hpost := by
    cases c with
    | openDatabase database mode =>
        rcases hpost with ⟨htr, -⟩ | ⟨path, found, htr, -⟩ <;> simp [htr]
    | replace path entry =>
        obtain ⟨rfl, -⟩ := hpost
        exact Nat.le_refl 1
  idle c tr x _ hpost hnone files := by
    have hnil : tr.filter OpenLabel.commits = [] :=
      List.filter_eq_nil_iff.mpr fun l hl => by simp [hnone l hl]
    cases c with
    | openDatabase database mode =>
        rcases hpost with ⟨-, hvalue⟩ | ⟨path, found, htr, -⟩
        · exact Prod.ext (hvalue files) rfl
        · rw [hnil] at htr
          cases htr
    | replace path entry =>
        obtain ⟨rfl, -⟩ := hpost
        cases hnil
  env _ _ _ h := h.elim

/-- **Opening is atomic**: in every run of any number of callers that open databases in whatever
modes, of which every call runs step by step and may run Python code, while other processes give
paths other files, each opening comes to what it would come to at one point between its call and
its return, with the files as they are then. -/
theorem openDatabase_linearizable {ι : Type} [DecidableEq ι] (files : FileSystem)
    {es : List (Event ι FileCall OpenLabel FileResult)}
    {P : Pool ι FileCall OpenLabel FileSystem FileResult}
    (run : (fileSystem libs).Run files es P) :
    Linearizable (fileObject libs files) (history id es) := by
  obtain ⟨ops, st, hacc, -⟩ := (fileContract_linearizes libs files).linearized
    (fileContract_holds libs) trivial rfl run fun _ _ _ => trivial
  exact ⟨ops, _, st, hacc⟩

/-- A crate that takes every file that is not empty for the same database. -/
def smallLibs : OpenLibs where
  extractOsString _ := .error (.other 0)
  fromSource source := match source with
    | [] => .error (.InvalidDatabase (.text "empty"))
    | _ => .ok constantSource.reader

/-- A file that holds that database. -/
def smallFile : OsFile := ⟨[1], .ok (), .ok ()⟩

/-- A database that is a path, and gives the same bytes when it is read. -/
def smallDatabase : DatabaseArg where
  str := some (.ofString "db")
  fspath := .error (.attributeError 0)
  name := none
  typeRepr := .ok "class"
  read := .ok [1]

/-- A database that is read into memory while its path gets an empty file. -/
theorem openDatabase_linearizable_replaced :
    let files : FileSystem := fun _ => .ok smallFile
    let c : FileCall := .openDatabase smallDatabase modeMemory
    ∃ es, ∃ P : Pool Bool FileCall OpenLabel FileSystem FileResult,
      (fileSystem smallLibs).Run files es P ∧
        (∃ tr, .ret false c tr (some (.ok (.Memory constantSource.reader))) ∈ es) ∧
        Linearizable (fileObject smallLibs files) (history id es) := by
  intro files c
  have start : (fileSystem smallLibs).Run files [] _ := .nil (ι := Bool)
  have opened := (start.snoc (.call (i := false) (c := c) rfl trivial)).snoc
    (.step (i := false) rfl)
  have replaced := opened.exec (i := true)
    (c := .replace ⟨utf8Bytes "db"⟩ (.ok ⟨[], .ok (), .ok ()⟩)) rfl trivial
  have returned := (replaced.snoc (.step (i := false) rfl)).snoc (.ret (i := false) rfl)
  exact ⟨_, _, returned, ⟨_, List.mem_append_right _ (List.mem_singleton_self _)⟩,
    openDatabase_linearizable smallLibs files returned⟩

/-! ### Modes -/

/-- The modes in which the argument is a path. -/
def pathModes : List Int32 := [modeAuto, modeMmapExt, modeMmap, modeFile, modeMemory]

/-- An exception without the text by which the modes tell how they failed to read a file. -/
def OpenErr.forgetHow : OpenErr → OpenErr
  | ioError _ => ioError []
  | e => e

/-- What a database comes to for its callers: its reader, however it is held, or an exception. -/
def openedReader (r : Except OpenErr ReaderSource) : Except OpenErr MaxMindReader :=
  (r.map ReaderSource.reader).mapError OpenErr.forgetHow

/-- The reader of the bytes of a file that was opened, or the exception for it. -/
def readerOfFound (path : OsPath) (found : Except IoError OsFile) :
    Except OpenErr MaxMindReader :=
  match found with
  | .error err => .error (match err.kind with
      | .NotFound => .fileNotFoundError [.io err]
      | .Other => .ioError [])
  | .ok file => readerFromSource libs (.path path) file.bytes

section Modes

open Prog

variable {libs} {files : FileSystem}

lemma forgetHow_readerFromSource (sourceName : OpenPiece) (source : List UInt8) :
    (readerFromSource libs sourceName source).mapError OpenErr.forgetHow
      = readerFromSource libs sourceName source := by
  rw [readerFromSource]
  cases libs.fromSource source <;> rfl

lemma readerFromSource_eq_ok_iff {sourceName : OpenPiece} {source : List UInt8}
    {reader : MaxMindReader} :
    readerFromSource libs sourceName source = .ok reader ↔ libs.fromSource source = .ok reader := by
  rw [readerFromSource]
  cases libs.fromSource source <;> simp [Except.mapError]

/-- However a reader is held, it is that reader. -/
lemma openedReader_map {f : MaxMindReader → ReaderSource}
    (hf : ∀ reader, (f reader).reader = reader) (r : Except OpenErr MaxMindReader) :
    openedReader (r.map f) = r.mapError OpenErr.forgetHow := by
  cases r with
  | error e => rfl
  | ok reader => exact congrArg Except.ok (hf reader)

/-- Mapping a file that can be mapped. -/
lemma openedReader_mmap {path : OsPath}
    (h : ∀ file, files path = .ok file → file.map = .ok ()) :
    openedReader ((openDatabaseMmap libs path).value files)
      = readerOfFound libs path (files path) := by
  rw [openDatabaseMmap, value_map, openedReader_map fun _ => rfl, loadReader, openFile]
  simp only [andThen_atom, value_atom]
  cases hfound : files path with
  | error err =>
      rw [readerOfFound]
      cases hkind : err.kind <;> simp only [Except.mapError, hkind, andThen_ret_error] <;> rfl
  | ok file =>
      rw [readerOfFound, ← forgetHow_readerFromSource]
      simp only [Except.mapError, andThen_ret_ok, andThen_atom, value_atom, h file hfound]
      rfl

/-- Reading a file that can be read. -/
lemma openedReader_memory {path : OsPath}
    (h : ∀ file, files path = .ok file → file.read = .ok ()) :
    openedReader ((openDatabaseMemory libs path).value files)
      = readerOfFound libs path (files path) := by
  rw [openDatabaseMemory, value_map, openedReader_map fun _ => rfl, loadReader, fsRead]
  simp only [Prog.map, Prog.bind, andThen_atom, value_atom]
  cases hfound : files path with
  | error err =>
      rw [readerOfFound, readOpened]
      cases hkind : err.kind <;>
        simp only [Prog.bind, Except.mapError, hkind, andThen_ret_error] <;> rfl
  | ok file =>
      rw [readerOfFound, ← forgetHow_readerFromSource, readOpened]
      simp only [Prog.bind, andThen_atom, value_atom, h file hfound]
      rfl

/-- **What a path mode comes to**: the reader of the file at the path, if there is a path. -/
lemma openedReader_of_pathMode {database : DatabaseArg} {mode : Int32} (hmode : mode ∈ pathModes)
    (hfiles : ∀ path file, files path = .ok file → file.map = .ok () ∧ file.read = .ok ()) :
    openedReader (openResult libs files database mode)
      = ((extractDatabasePath libs database).value files).mapError OpenErr.forgetHow >>=
          fun path => readerOfFound libs path (files path) := by
  obtain ⟨r, hr⟩ := blind_extractDatabasePath libs database
  have hmap : ∀ path, openedReader ((openDatabaseMmap libs path).value files)
      = readerOfFound libs path (files path) := fun path =>
    openedReader_mmap fun file h => (hfiles path file h).1
  have hread : ∀ path, openedReader ((openDatabaseMemory libs path).value files)
      = readerOfFound libs path (files path) := fun path =>
    openedReader_memory fun file h => (hfiles path file h).2
  have hopen : ∀ {load : OsPath → Opening ReaderSource},
      (∀ path, openedReader ((load path).value files) = readerOfFound libs path (files path)) →
      openedReader (((extractDatabasePath libs database).andThen load).value files)
        = r.mapError OpenErr.forgetHow >>= fun path => readerOfFound libs path (files path) := by
    intro load hload
    rw [Prog.andThen, value_bind, hr.value, hr.looksOnce.final]
    cases r with
    | error e => rfl
    | ok path => exact hload path
  rw [hr.value, openResult, openDatabase]
  simp only [pathModes, List.mem_cons, List.not_mem_nil, or_false] at hmode
  rcases hmode with rfl | rfl | rfl | rfl | rfl
  · exact hopen hmap
  · exact hopen hmap
  · exact hopen hmap
  · exact hopen hread
  · exact hopen hread

/-- What opening an object that gives bytes comes to. -/
lemma openedReader_fd (libs : OpenLibs) (files : FileSystem) {database : DatabaseArg}
    {bytes : List UInt8}
    (hname : database.name.isSome ∨ ∃ typeRepr, database.typeRepr = .ok typeRepr)
    (hread : database.read = .ok bytes) :
    ∃ filename, openedReader (openResult libs files database modeFd)
      = readerFromSource libs (.str filename) bytes := by
  have hfilename : ∃ filename, (fdDatabaseName database).value files = .ok filename := by
    rw [fdDatabaseName]
    cases hn : database.name with
    | some name => exact ⟨name, rfl⟩
    | none =>
        obtain ⟨typeRepr, htype⟩ := hname.resolve_left (by simp [hn])
        refine ⟨s!"<{typeRepr}>", ?_⟩
        rw [htype]
        rfl
  obtain ⟨filename, hfilename⟩ := hfilename
  refine ⟨filename, ?_⟩
  show openedReader ((openDatabaseFd libs database).value files) = _
  rw [openDatabaseFd, Prog.andThen, value_bind, hfilename, hread, ← forgetHow_readerFromSource,
    ← openedReader_map (f := ReaderSource.Memory) fun _ => rfl]
  rfl

end Modes

end MaxminddbRust
