import Xlab.ConfigFile
import Xlab.ConnRead

/-!
# The configuration of the server

`xlab_config_start_configure` sets defaults, reads the file and takes the settings of its section
`SERVER`. A setting that is missing or out of range falls back to its default, and what goes
wrong is printed. It is not enough : the capacity of the workers is worked out on the last lines
only, and a section that is missing is read nevertheless.

`configStartConfigure_usable_iff` says when the settings end up usable : the file can be opened and
read, it has the section, the lookups in it meet no line without a key, the limit on descriptors
gives every worker a connection, and `MaxRequestSize` times 1024 fits into an `int`.
-/

open CStr

namespace Xlab

/-! ## Lookups -/

/-- `strcasecmp(entry->key, key)` gives 0, for a key that is there. -/
def ConfigEntry.hasKey (key : List UInt8) (e : ConfigEntry) : Bool :=
  match e.key with
  | none => false
  | some k => sameNoCase k key

/-- The loop of `xlab_config_section_getval` : the first entry with the key. -/
def findEntry (key : List UInt8) : List ConfigEntry → Except Fault (Option ConfigEntry)
  | [] => .ok none
  | e :: es =>
    match e.key with
    | none => .error .nullPointer
    | some k => if sameNoCase k key then .ok (some e) else findEntry key es

/-- `xlab_config_section_get`. -/
def sectionGet (name : List UInt8) (cnf : ConfigFile) : Option ConfigSection :=
  cnf.sections.find? fun s => sameNoCase s.name name

/-- `xlab_config_section_getval` for `XLAB_CONFIG_VAL_STR`. -/
def sectionGetStr (section? : Option ConfigSection) (key : List UInt8) :
    Except Fault (Option (List UInt8)) :=
  match section? with
  | none => .error .nullPointer
  | some s => do
    let e ← findEntry key s.entries
    return e.bind ConfigEntry.val

/-- `xlab_config_section_getval` for `XLAB_CONFIG_VAL_NUM`, where `NULL` is read as 0 and a
`long` has `bits` bits. -/
def sectionGetNum (bits : ℕ) (section? : Option ConfigSection) (key : List UInt8) :
    Except Fault ℤ :=
  match section? with
  | none => .error .nullPointer
  | some s => do
    match ← findEntry key s.entries with
    | none => return 0
    | some e =>
      match e.val with
      | none => .error .nullPointer
      | some val => return strtol bits val

/-! ## Settings -/

/-- `"SERVER"`. -/
def keyServer : List UInt8 := [0x53, 0x45, 0x52, 0x56, 0x45, 0x52]

/-- `"Listen"`. -/
def keyListen : List UInt8 := [0x4C, 0x69, 0x73, 0x74, 0x65, 0x6E]

/-- `"Port"`. -/
def keyPort : List UInt8 := [0x50, 0x6F, 0x72, 0x74]

/-- `"Workers"`. -/
def keyWorkers : List UInt8 := [0x57, 0x6F, 0x72, 0x6B, 0x65, 0x72, 0x73]

/-- `"MaxRequestSize"`. -/
def keyMaxRequestSize : List UInt8 :=
  [0x4D, 0x61, 0x78, 0x52, 0x65, 0x71, 0x75, 0x65, 0x73, 0x74, 0x53, 0x69, 0x7A, 0x65]

/-- `XLAB_DEFAULT_LISTEN_ADDR`, `"0.0.0.0"`. -/
def defaultListenAddr : List UInt8 := [0x30, 0x2E, 0x30, 0x2E, 0x30, 0x2E, 0x30]

/-- `XLAB_DEFAULT_SERVER_PORT`. -/
def defaultServerPort : ℤ := 2001

/-- `XLAB_WORKERS_DEFAULT`. -/
def workersDefault : ℤ := 1

/-- `XLAB_REQUEST_CHUNK * 8`. -/
def defaultMaxRequestSize : ℤ := 4096 * 8

/-- What the configuration prints. -/
inductive ConfigMessage where
  | noDirectory (path : String)
  | cannotOpen (path : String)
  | noFile
  | noServer
  | invalid (setting path : String)
  deriving DecidableEq, Repr

/-- The text of a message. -/
def ConfigMessage.text : ConfigMessage → String
  | .noDirectory path => "ERROR: Cannot find/open '" ++ path ++ "'"
  | .cannotOpen path => "Config: I cannot open " ++ path ++ " file"
  | .noFile => "Cannot read 'raifull.conf'"
  | .noServer => "ERROR: No 'SERVER' section defined"
  | .invalid setting path =>
    "Error in " ++ setting ++ " variable under " ++ path ++ ", has an invalid value"

/-- What `struct server_config` gets from the configuration. -/
structure Settings where
  workerCapacity : ℤ
  maxLoad : ℤ
  workers : ℤ
  listenAddr : List UInt8
  serverport : ℤ
  maxRequestSize : ℤ
  config : Option ConfigFile
  messages : List ConfigMessage

/-- `xlab_config_set_init_values` of a zeroed `struct server_config`. -/
def Settings.init : Settings :=
  ⟨0, 0, 0, defaultListenAddr, defaultServerPort, defaultMaxRequestSize, none, []⟩

/-- A message is printed. -/
def Settings.print (m : ConfigMessage) (s : Settings) : Settings :=
  { s with messages := s.messages ++ [m] }

/-- `xlab_server_worker_capacity`, where the soft limit on descriptors is `rlimCur`. -/
def serverWorkerCapacity (rlimCur : ℕ) (nworkers : ℤ) : ℤ :=
  let max := toInt rlimCur
  let avl := max - (3 + 1 + nworkers + 1 + 2)
  (avl.tdiv 2).tdiv nworkers

/-- The connection port. -/
def configurePort (path : String) (num : ℤ) (s : Settings) : Settings :=
  let serverport := toInt num
  if serverport ≤ 1 ∨ 65535 ≤ serverport then
    { s.print (.invalid "Port" path) with serverport := defaultServerPort }
  else { s with serverport := serverport }

/-- The number of workers, their capacity and the load they take. -/
def configureWorkers (path : String) (rlimCur : ℕ) (num : ℤ) (s : Settings) : Settings :=
  let workers := toShort num
  let s :=
    if workers < 1 then { s.print (.invalid "Workers" path) with workers := workersDefault }
    else { s with workers := workers }
  let workerCapacity := serverWorkerCapacity rlimCur s.workers
  { s with workerCapacity := workerCapacity, maxLoad := workerCapacity * s.workers }

/-- The maximal request size, given in KiB. -/
def configureRequestSize (path : String) (num : ℤ) (s : Settings) : Except Fault Settings :=
  let maxRequestSize := toInt num
  if maxRequestSize ≤ 0 then
    .ok { s.print (.invalid "MaxRequestSize" path) with maxRequestSize := defaultMaxRequestSize }
  else if 2 ^ 31 ≤ maxRequestSize * 1024 then .error .overflow
  else .ok { s with maxRequestSize := maxRequestSize * 1024 }

/-- What the file access of `xlab_config_read_files` finds. -/
inductive FileAccess where
  /-- `stat` fails for the directory. -/
  | noDirectory
  /-- The directory is there, and the file, if it can be opened. -/
  | directory (file : Option (List UInt8))

/-- The settings of a file that was read. -/
def mapSettings (bits : ℕ) (path : String) (rlimCur : ℕ) (cnf : ConfigFile) (s : Settings) :
    Except Fault Settings := do
  let section? := sectionGet keyServer cnf
  let s := if section? = none then s.print .noServer else s
  let s := { s with config := some cnf }
  let listenAddr ← sectionGetStr section? keyListen
  let s := { s with listenAddr := listenAddr.getD defaultListenAddr }
  let port ← sectionGetNum bits section? keyPort
  let s := configurePort path port s
  let workers ← sectionGetNum bits section? keyWorkers
  let s := configureWorkers path rlimCur workers s
  let maxRequestSize ← sectionGetNum bits section? keyMaxRequestSize
  configureRequestSize path maxRequestSize s

/-- `xlab_config_read_files`. -/
def configReadFiles (bits : ℕ) (junk : Vector UInt8 255) (pathConf fileConf : String)
    (rlimCur : ℕ) (access : FileAccess) (s : Settings) : Except Fault Settings :=
  let s := { s with workers := workersDefault }
  match access with
  | .noDirectory => .ok (s.print (.noDirectory pathConf))
  | .directory file => do
    let path := pathConf ++ "/" ++ fileConf
    match ← configCreate junk file with
    | none => return (s.print (.cannotOpen path)).print .noFile
    | some cnf => mapSettings bits path rlimCur cnf s

/-- `xlab_config_start_configure`. `M_DEFAULT_CONFIG_FILE` is the file. -/
def configStartConfigure (bits : ℕ) (junk : Vector UInt8 255) (fileConfig : String)
    (rlimCur : ℕ) (access : FileAccess) : Except Fault Settings :=
  configReadFiles bits junk fileConfig "raifull.conf" rlimCur access .init

/-! ## When the settings are usable -/

/-- What the rest of the server relies on. -/
structure Settings.Usable (s : Settings) : Prop where
  port : 1 < s.serverport ∧ s.serverport < 65535
  workers : 1 ≤ s.workers
  requestSize : 0 < s.maxRequestSize
  capacity : 1 ≤ s.workerCapacity
  load : s.maxLoad = s.workerCapacity * s.workers

namespace ConfigSection

/-- The first entry with the key. -/
def lookup (key : List UInt8) (s : ConfigSection) : Option ConfigEntry :=
  s.entries.find? (ConfigEntry.hasKey key)

/-- Every entry before it has a key. -/
def Reaches (key : List UInt8) (s : ConfigSection) : Prop :=
  ∀ e ∈ s.entries.takeWhile fun e => !e.hasKey key, e.key ≠ none

/-- The entry, if there is one, has a value besides. -/
def Numeric (key : List UInt8) (s : ConfigSection) : Prop :=
  s.Reaches key ∧ ∀ e ∈ s.lookup key, e.val ≠ none

/-- The number of the entry, 0 without one. -/
def number (bits : ℕ) (key : List UInt8) (s : ConfigSection) : ℤ :=
  match s.lookup key with
  | none => 0
  | some e => strtol bits (e.val.getD [])

end ConfigSection

/-- The number of workers after the fallback. -/
def workersOf (num : ℤ) : ℤ :=
  if toShort num < 1 then workersDefault else toShort num

/-- What a section `SERVER` needs where the limit on descriptors is `rlimCur`. -/
structure ConfigSection.Suffices (bits rlimCur : ℕ) (s : ConfigSection) : Prop where
  listen : s.Reaches keyListen
  port : s.Numeric keyPort
  workers : s.Numeric keyWorkers
  requestSize : s.Numeric keyMaxRequestSize
  capacity : 3 * workersOf (s.number bits keyWorkers) + 7 ≤ rlimCur
  size : toInt (s.number bits keyMaxRequestSize) < 2 ^ 21

/-! ### Lookups -/

theorem findEntry_eq_ok {key : List UInt8} {es : List ConfigEntry} {x : Option ConfigEntry} :
    findEntry key es = .ok x ↔
      (∀ e ∈ es.takeWhile fun e => !e.hasKey key, e.key ≠ none) ∧
        es.find? (ConfigEntry.hasKey key) = x := by
  induction es with
  | nil => simp [findEntry]
  | cons e es ih =>
    rw [findEntry]
    cases hk : e.key with
    | none =>
      have hno : e.hasKey key = false := by simp [ConfigEntry.hasKey, hk]
      simp [hno, hk]
    | some k =>
      by_cases hsame : sameNoCase k key = true
      · have hyes : e.hasKey key = true := by simp [ConfigEntry.hasKey, hk, hsame]
        simp [hsame, hyes]
      · have hno : e.hasKey key = false := by
          simp [ConfigEntry.hasKey, hk, Bool.not_eq_true _ ▸ hsame]
        simp [hsame, hno, ih, hk]

theorem sectionGetStr_eq_ok {s : ConfigSection} {key : List UInt8} {x : Option (List UInt8)} :
    sectionGetStr (some s) key = .ok x ↔
      s.Reaches key ∧ (s.lookup key).bind ConfigEntry.val = x := by
  cases hf : findEntry key s.entries with
  | error f =>
    rw [sectionGetStr, hf]
    refine iff_of_false nofun fun h => ?_
    rw [findEntry_eq_ok.2 ⟨h.1, rfl⟩] at hf
    cases hf
  | ok e =>
    obtain ⟨hreach, rfl⟩ := findEntry_eq_ok.1 hf
    rw [sectionGetStr, hf]
    exact ⟨fun h => ⟨hreach, Except.ok.inj h⟩, fun h => congrArg Except.ok h.2⟩

theorem sectionGetNum_eq_ok {bits : ℕ} {s : ConfigSection} {key : List UInt8} {n : ℤ} :
    sectionGetNum bits (some s) key = .ok n ↔ s.Numeric key ∧ s.number bits key = n := by
  have hfound : ∀ {x}, findEntry key s.entries = .ok x ↔ s.Reaches key ∧ s.lookup key = x :=
    findEntry_eq_ok
  cases hf : findEntry key s.entries with
  | error f =>
    rw [sectionGetNum, hf]
    refine iff_of_false nofun fun h => ?_
    rw [hfound.2 ⟨h.1.1, rfl⟩] at hf
    cases hf
  | ok x =>
    obtain ⟨hreach, hx⟩ := hfound.1 hf
    rw [sectionGetNum, hf]
    cases x with
    | none =>
      have hnumeric : s.Numeric key := ⟨hreach, fun e he => by rw [hx] at he; cases he⟩
      have hnumber : s.number bits key = 0 := by rw [ConfigSection.number, hx]
      rw [hnumber]
      exact ⟨fun h => ⟨hnumeric, Except.ok.inj h⟩, fun h => congrArg Except.ok h.2⟩
    | some e =>
      cases hv : e.val with
      | none => exact iff_of_false (by simp [bind, Except.bind, hv]) fun h => h.1.2 e hx hv
      | some val =>
        have hnumeric : s.Numeric key := by
          refine ⟨hreach, fun e' he' => ?_⟩
          rw [hx] at he'
          obtain rfl := Option.some.inj he'
          rw [hv]
          exact Option.some_ne_none _
        have hnumber : s.number bits key = strtol bits val := by
          rw [ConfigSection.number, hx]
          simp only [hv, Option.getD_some]
        rw [hnumber]
        simp only [bind, Except.bind, hv, pure, Except.pure, Except.ok.injEq, hnumeric, true_and]

/-! ### Ranges -/

theorem toInt_of_lt {n : ℕ} (h : n < 2 ^ 31) : toInt n = n :=
  toInt_of_range (by omega) (by omega)

theorem tdiv_nonpos {a b : ℤ} (ha : a ≤ 0) (hb : 0 ≤ b) : a.tdiv b ≤ 0 := by
  have h := Int.tdiv_nonneg (Int.neg_nonneg.2 ha) hb
  rw [Int.neg_tdiv] at h
  omega

/-- Each worker gets a connection if the limit on descriptors leaves three for each and seven
more. -/
theorem one_le_serverWorkerCapacity {rlimCur : ℕ} (h : rlimCur < 2 ^ 31) {n : ℤ} (hn : 1 ≤ n) :
    1 ≤ serverWorkerCapacity rlimCur n ↔ 3 * n + 7 ≤ rlimCur := by
  rw [serverWorkerCapacity, toInt_of_lt h]
  generalize havl : (rlimCur : ℤ) - (3 + 1 + n + 1 + 2) = avl
  rcases Int.le_total 0 avl with hpos | hneg
  · rw [Int.tdiv_eq_ediv_of_nonneg hpos, Int.tdiv_eq_ediv_of_nonneg (by omega),
      Int.le_ediv_iff_mul_le (by omega)]
    omega
  · have hle : (avl.tdiv 2).tdiv n ≤ 0 := tdiv_nonpos (tdiv_nonpos hneg (by omega)) (by omega)
    omega

theorem one_le_workersOf (num : ℤ) : 1 ≤ workersOf num := by
  rw [workersOf, workersDefault]
  split_ifs <;> omega

theorem serverport_configurePort (path : String) (num : ℤ) (s : Settings) :
    1 < (configurePort path num s).serverport ∧ (configurePort path num s).serverport < 65535 := by
  rw [configurePort]
  simp only [defaultServerPort]
  split_ifs with h
  · simp
  · rw [not_or] at h
    simp only []
    omega

theorem workers_configureWorkers (path : String) (rlimCur : ℕ) (num : ℤ) (s : Settings) :
    (configureWorkers path rlimCur num s).workers = workersOf num := by
  simp only [configureWorkers, workersOf]
  split_ifs <;> rfl

theorem capacity_configureWorkers (path : String) (rlimCur : ℕ) (num : ℤ) (s : Settings) :
    (configureWorkers path rlimCur num s).workerCapacity =
      serverWorkerCapacity rlimCur (workersOf num) := by
  rw [← workers_configureWorkers path rlimCur num s]
  unfold configureWorkers
  simp only []

theorem load_configureWorkers (path : String) (rlimCur : ℕ) (num : ℤ) (s : Settings) :
    (configureWorkers path rlimCur num s).maxLoad =
      (configureWorkers path rlimCur num s).workerCapacity *
        (configureWorkers path rlimCur num s).workers := by
  unfold configureWorkers
  simp only []

theorem serverport_configureWorkers (path : String) (rlimCur : ℕ) (num : ℤ) (s : Settings) :
    (configureWorkers path rlimCur num s).serverport = s.serverport := by
  simp only [configureWorkers]
  split_ifs <;> rfl

/-- The request size is kept out of an `int`, or becomes at least 1024 and nothing else
changes. -/
theorem configureRequestSize_cases (path : String) (num : ℤ) (s : Settings) :
    (2 ^ 21 ≤ toInt num ∧ configureRequestSize path num s = .error .overflow) ∨
      (toInt num < 2 ^ 21 ∧ ∃ s', configureRequestSize path num s = .ok s' ∧
        1024 ≤ s'.maxRequestSize ∧ s'.serverport = s.serverport ∧ s'.workers = s.workers ∧
        s'.workerCapacity = s.workerCapacity ∧ s'.maxLoad = s.maxLoad) := by
  rw [configureRequestSize]
  simp only []
  split_ifs with hle hover
  · exact Or.inr ⟨by omega, _, rfl, by simp [defaultMaxRequestSize], rfl, rfl, rfl, rfl⟩
  · exact Or.inl ⟨by omega, rfl⟩
  · exact Or.inr ⟨by omega, _, rfl, by simp only []; omega, rfl, rfl, rfl, rfl⟩

/-- With the three numbers of the section the settings end up usable exactly when every worker
gets a connection and the request size fits into an `int`. -/
theorem usable_configured_iff (path : String) {rlimCur : ℕ} (h : rlimCur < 2 ^ 31)
    (port workers size : ℤ) (s : Settings) :
    (∃ s', configureRequestSize path size
      (configureWorkers path rlimCur workers (configurePort path port s)) = .ok s' ∧ s'.Usable) ↔
      3 * workersOf workers + 7 ≤ rlimCur ∧ toInt size < 2 ^ 21 := by
  have hone := one_le_serverWorkerCapacity h (one_le_workersOf workers)
  rcases configureRequestSize_cases path size
      (configureWorkers path rlimCur workers (configurePort path port s)) with
    ⟨hge, herr⟩ | ⟨hlt, s', hok, hsize', hport', hworkers', hcap, hload⟩
  · refine iff_of_false ?_ fun hfits => absurd hfits.2 (Int.not_lt.2 hge)
    rintro ⟨s', hok, -⟩
    rw [herr] at hok
    cases hok
  · rw [capacity_configureWorkers] at hcap
    rw [workers_configureWorkers] at hworkers'
    rw [← hone, ← hcap]
    constructor
    · rintro ⟨s'', hok', husable⟩
      obtain rfl := Except.ok.inj (hok.symm.trans hok')
      exact ⟨husable.capacity, hlt⟩
    · rintro ⟨hcapacity, -⟩
      refine ⟨s', hok, ?_, ?_, Int.lt_of_lt_of_le (by decide) hsize', hcapacity, ?_⟩
      · rw [hport', serverport_configureWorkers]
        exact serverport_configurePort ..
      · rw [hworkers']
        exact one_le_workersOf _
      · rw [hload, load_configureWorkers, workers_configureWorkers, capacity_configureWorkers, hcap,
          hworkers']

/-! ### Runs of the configuration -/

/-- The settings after the lookup of `Listen`. -/
def Settings.mapped (cnf : ConfigFile) (sec : ConfigSection) (s : Settings) : Settings :=
  { s with
    config := some cnf
    listenAddr := ((sec.lookup keyListen).bind ConfigEntry.val).getD defaultListenAddr }

/-- The four lookups in the section meet no line without a key or a value. -/
structure ConfigSection.Found (sec : ConfigSection) : Prop where
  listen : sec.Reaches keyListen
  port : sec.Numeric keyPort
  workers : sec.Numeric keyWorkers
  requestSize : sec.Numeric keyMaxRequestSize

/-- Entries with a key and a value never stop a lookup. -/
theorem ConfigSection.found_of_complete {sec : ConfigSection}
    (h : ∀ e ∈ sec.entries, e.key ≠ none ∧ e.val ≠ none) : sec.Found := by
  have hreach : ∀ key, sec.Reaches key := fun key e he =>
    (h e ((List.takeWhile_prefix _).subset he)).1
  have hnumeric : ∀ key, sec.Numeric key := fun key =>
    ⟨hreach key, fun e he => (h e (List.mem_of_find?_eq_some he)).2⟩
  exact ⟨hreach _, hnumeric _, hnumeric _, hnumeric _⟩

/-- With the section there, the settings are those of its three numbers. -/
theorem mapSettings_eq_ok {bits : ℕ} {path : String} {rlimCur : ℕ} {cnf : ConfigFile}
    {sec : ConfigSection} (hsec : sectionGet keyServer cnf = some sec) {s s' : Settings} :
    mapSettings bits path rlimCur cnf s = .ok s' ↔
      sec.Found ∧ configureRequestSize path (sec.number bits keyMaxRequestSize)
        (configureWorkers path rlimCur (sec.number bits keyWorkers)
          (configurePort path (sec.number bits keyPort) (s.mapped cnf sec))) = .ok s' := by
  unfold mapSettings
  simp only [hsec, bind_eq_ok]
  constructor
  · rintro ⟨x, hx, port, hport, workers, hworkers, size, hsize, hs'⟩
    obtain ⟨hlisten, rfl⟩ := sectionGetStr_eq_ok.1 hx
    obtain ⟨hport', rfl⟩ := sectionGetNum_eq_ok.1 hport
    obtain ⟨hworkers', rfl⟩ := sectionGetNum_eq_ok.1 hworkers
    obtain ⟨hsize', rfl⟩ := sectionGetNum_eq_ok.1 hsize
    exact ⟨⟨hlisten, hport', hworkers', hsize'⟩, hs'⟩
  · rintro ⟨hfound, hs'⟩
    exact ⟨_, sectionGetStr_eq_ok.2 ⟨hfound.listen, rfl⟩,
      _, sectionGetNum_eq_ok.2 ⟨hfound.port, rfl⟩,
      _, sectionGetNum_eq_ok.2 ⟨hfound.workers, rfl⟩,
      _, sectionGetNum_eq_ok.2 ⟨hfound.requestSize, rfl⟩, hs'⟩

/-- The settings of a file end up usable exactly when its section suffices. -/
theorem mapSettings_usable_iff (bits : ℕ) (path : String) {rlimCur : ℕ} (h : rlimCur < 2 ^ 31)
    (cnf : ConfigFile) (s : Settings) :
    (∃ s', mapSettings bits path rlimCur cnf s = .ok s' ∧ s'.Usable) ↔
      ∃ sec, sectionGet keyServer cnf = some sec ∧ sec.Suffices bits rlimCur := by
  cases hsec : sectionGet keyServer cnf with
  | none =>
    refine iff_of_false ?_ fun ⟨_, h, _⟩ => nomatch h
    rintro ⟨s', hs', -⟩
    unfold mapSettings at hs'
    rw [hsec] at hs'
    cases hs'
  | some sec =>
    simp only [Option.some.injEq, exists_eq_left', mapSettings_eq_ok hsec]
    constructor
    · rintro ⟨s', ⟨hfound, hs'⟩, husable⟩
      obtain ⟨hcapacity, hlt⟩ := (usable_configured_iff path h _ _ _ _).1 ⟨s', hs', husable⟩
      exact ⟨hfound.listen, hfound.port, hfound.workers, hfound.requestSize, hcapacity, hlt⟩
    · rintro ⟨hlisten, hport, hworkers, hsize, hcapacity, hlt⟩
      obtain ⟨s', hs', husable⟩ := (usable_configured_iff path h
        (sec.number bits keyPort) _ _ (s.mapped cnf sec)).2 ⟨hcapacity, hlt⟩
      exact ⟨s', ⟨⟨hlisten, hport, hworkers, hsize⟩, hs'⟩, husable⟩

/-- The configuration ends usable exactly when the file can be opened and read and has a section
`SERVER` that suffices. -/
theorem configStartConfigure_usable_iff (bits : ℕ) (junk : Vector UInt8 255) (fileConfig : String)
    {rlimCur : ℕ} (h : rlimCur < 2 ^ 31) (access : FileAccess) :
    (∃ s, configStartConfigure bits junk fileConfig rlimCur access = .ok s ∧ s.Usable) ↔
      ∃ file cnf sec, access = .directory (some file) ∧
        configCreate junk (some file) = .ok (some cnf) ∧ sectionGet keyServer cnf = some sec ∧
        sec.Suffices bits rlimCur := by
  have hidle : ∀ s : Settings, s.workerCapacity = 0 → ¬s.Usable := by
    intro s h0 hs
    have := hs.capacity
    omega
  unfold configStartConfigure configReadFiles
  cases access with
  | noDirectory =>
    refine iff_of_false ?_ fun ⟨_, _, _, h, _⟩ => nomatch h
    rintro ⟨s, hs, husable⟩
    obtain rfl := Except.ok.inj hs
    exact hidle _ rfl husable
  | directory file =>
    simp only [bind_eq_ok]
    cases file with
    | none =>
      refine iff_of_false ?_ fun ⟨_, _, _, h, _⟩ => nomatch h
      rintro ⟨s, ⟨cnf, hcnf, hs⟩, husable⟩
      obtain rfl := Except.ok.inj hcnf
      obtain rfl := Except.ok.inj hs
      exact hidle _ rfl husable
    | some file =>
      constructor
      · rintro ⟨s, ⟨cnf, hcnf, hs⟩, husable⟩
        cases cnf with
        | none =>
          obtain rfl := Except.ok.inj hs
          exact absurd husable (hidle _ rfl)
        | some cnf =>
          obtain ⟨sec, hsec, hsuff⟩ := (mapSettings_usable_iff bits _ h cnf _).1 ⟨s, hs, husable⟩
          exact ⟨file, cnf, sec, rfl, hcnf, hsec, hsuff⟩
      · rintro ⟨file', cnf, sec, hfile, hcnf, hsec, hsuff⟩
        obtain rfl : file = file' := Option.some.inj (FileAccess.directory.inj hfile)
        obtain ⟨s, hs, husable⟩ :=
          (mapSettings_usable_iff bits (fileConfig ++ "/" ++ "raifull.conf") h cnf
            { Settings.init with workers := workersDefault }).2 ⟨sec, hsec, hsuff⟩
        exact ⟨s, ⟨some cnf, hcnf, hs⟩, husable⟩

/-- `[SERVER]`, and a port of 2001 below it. -/
def serverConf : List UInt8 :=
  [0x5B, 0x53, 0x45, 0x52, 0x56, 0x45, 0x52, 0x5D, 0x0A,
    0x20, 0x50, 0x6F, 0x72, 0x74, 0x20, 0x32, 0x30, 0x30, 0x31, 0x0A]

/-- With 64 descriptors. -/
theorem configStartConfigure_usable_serverConf :
    ∃ s, configStartConfigure 32 (Vector.replicate 255 0) "conf" 64
      (.directory (some serverConf)) = .ok s ∧ s.Usable := by
  refine (configStartConfigure_usable_iff 32 (Vector.replicate 255 0) "conf" (by decide) _).2
    ⟨serverConf, ⟨[⟨keyServer, [⟨some keyPort, some [0x32, 0x30, 0x30, 0x31]⟩]⟩], []⟩,
      ⟨keyServer, [⟨some keyPort, some [0x32, 0x30, 0x30, 0x31]⟩]⟩, rfl, ?_, ?_, ?_⟩
  · decide +kernel
  · decide +kernel
  · constructor
    · unfold ConfigSection.Reaches
      decide
    · unfold ConfigSection.Numeric ConfigSection.Reaches
      decide
    · unfold ConfigSection.Numeric ConfigSection.Reaches
      decide
    · unfold ConfigSection.Numeric ConfigSection.Reaches
      decide
    · decide +kernel
    · decide +kernel

/-- An empty file has no section `SERVER`, which is read nevertheless. -/
theorem configStartConfigure_without_section : ¬∀ (bits : ℕ) (junk : Vector UInt8 255)
    (fileConfig : String) (rlimCur : ℕ) (access : FileAccess), 64 ≤ rlimCur → rlimCur < 2 ^ 31 →
      ∃ s, configStartConfigure bits junk fileConfig rlimCur access = .ok s ∧ s.Usable := by
  intro h
  obtain ⟨s, hs, -⟩ := h 32 (Vector.replicate 255 0) "conf" 64 (.directory (some [])) (by decide)
    (by decide)
  cases hs

/-- The request size is at least 1024, whatever the file says. -/
theorem maxRequestSize_configStartConfigure {bits : ℕ} {junk : Vector UInt8 255}
    {fileConfig : String} {rlimCur : ℕ} {access : FileAccess} {s : Settings}
    (h : configStartConfigure bits junk fileConfig rlimCur access = .ok s) :
    1024 ≤ s.maxRequestSize := by
  unfold configStartConfigure configReadFiles at h
  cases access with
  | noDirectory =>
    obtain rfl := Except.ok.inj h
    simp [Settings.print, Settings.init, defaultMaxRequestSize]
  | directory file =>
    obtain ⟨cnf, -, h⟩ := bind_eq_ok.1 h
    cases cnf with
    | none =>
      obtain rfl := Except.ok.inj h
      simp [Settings.print, Settings.init, defaultMaxRequestSize]
    | some cnf =>
      simp only [mapSettings, bind_eq_ok] at h
      obtain ⟨_, -, _, -, _, -, size, -, hs⟩ := h
      rcases configureRequestSize_cases _ size _ with ⟨-, herr⟩ | ⟨-, s', hok, hge, -⟩
      · rw [herr] at hs
        cases hs
      · obtain rfl := Except.ok.inj (hok.symm.trans hs)
        exact hge

/-- Every configuration gives the event loops their settings. -/
theorem exists_serverConfig {bits : ℕ} {junk : Vector UInt8 255} {fileConfig : String}
    {rlimCur : ℕ} {access : FileAccess} {s : Settings}
    (h : configStartConfigure bits junk fileConfig rlimCur access = .ok s) :
    ∃ cfg : ServerConfig, (cfg.maxRequestSize : ℤ) = s.maxRequestSize := by
  have hge := maxRequestSize_configStartConfigure h
  exact ⟨⟨s.maxRequestSize.toNat, by omega⟩, Int.toNat_of_nonneg (by omega)⟩

end Xlab
