import Xlab.Configure

/-!
# Numbers in the configuration

A number of the section `SERVER` goes through three types : `strtol` clamps it to a `long`, a cast
keeps the low bits of that, and then comes the check of its range. A cast may turn a number that
is out of range into one that is accepted, and the request size is multiplied after its check.

`faithful_iff` says for which numbers the settings end as they were written, or at their
defaults.
-/

open CStr

namespace Xlab

/-! ## The settings that are meant -/

/-- The ports that are accepted. -/
def PortRange (n : ℤ) : Prop :=
  1 < n ∧ n < 65535

/-- The numbers of workers that are accepted and fit into a `short`. -/
def WorkersRange (n : ℤ) : Prop :=
  1 ≤ n ∧ n < 2 ^ 15

/-- The request sizes in KiB that are accepted and fit into an `int` as bytes. -/
def SizeRange (n : ℤ) : Prop :=
  1 ≤ n ∧ 1024 * n < 2 ^ 31

instance : DecidablePred PortRange := fun _ => inferInstanceAs (Decidable (_ ∧ _))

instance : DecidablePred WorkersRange := fun _ => inferInstanceAs (Decidable (_ ∧ _))

instance : DecidablePred SizeRange := fun _ => inferInstanceAs (Decidable (_ ∧ _))

/-- The port for a written number. -/
def effectivePort (v : ℤ) : ℤ :=
  if PortRange v then v else defaultServerPort

/-- The number of workers for a written number. -/
def effectiveWorkers (v : ℤ) : ℤ :=
  if WorkersRange v then v else workersDefault

/-- The request size for a written number. -/
def effectiveRequestSize (v : ℤ) : ℤ :=
  if SizeRange v then 1024 * v else defaultMaxRequestSize

/-- `v` is written as the value of the key, in the entry that is found. -/
def ConfigSection.Written (key : List UInt8) (v : ℤ) (s : ConfigSection) : Prop :=
  ∃ e text, s.lookup key = some e ∧ e.val = some text ∧ Writes text v

/-- Every number written in the section is taken as it is or replaced by the default. -/
structure Settings.Faithful (sec : ConfigSection) (s : Settings) : Prop where
  port : ∀ v, sec.Written keyPort v → s.serverport = effectivePort v
  workers : ∀ v, sec.Written keyWorkers v → s.workers = effectiveWorkers v
  requestSize : ∀ v, sec.Written keyMaxRequestSize v → s.maxRequestSize = effectiveRequestSize v
  positive : 0 < s.maxRequestSize

/-! ## The numbers for which the settings are as meant -/

/-- A port that is in range, or is not taken into it by the cast, or becomes the default. -/
def PortKept (bits : ℕ) (v : ℤ) : Prop :=
  PortRange v ∨ ¬PortRange (toInt (toLong bits v)) ∨ toInt (toLong bits v) = defaultServerPort

/-- The same for a number of workers. -/
def WorkersKept (bits : ℕ) (v : ℤ) : Prop :=
  WorkersRange v ∨ ¬WorkersRange (toShort (toLong bits v)) ∨
    toShort (toLong bits v) = workersDefault

/-- A request size that is in range, or becomes one that is not positive, or the default. -/
def SizeKept (bits : ℕ) (v : ℤ) : Prop :=
  SizeRange v ∨ toInt (toLong bits v) ≤ 0 ∨ 1024 * toInt (toLong bits v) = defaultMaxRequestSize

/-- The four lookups meet no line without a key or a value, every written number is kept, and
the request size does not overflow. -/
structure ConfigSection.Keeps (bits : ℕ) (sec : ConfigSection) : Prop where
  listen : sec.Reaches keyListen
  found : ∀ key ∈ [keyPort, keyWorkers, keyMaxRequestSize], sec.Numeric key
  port : ∀ v, sec.Written keyPort v → PortKept bits v
  workers : ∀ v, sec.Written keyWorkers v → WorkersKept bits v
  requestSize : ∀ v, sec.Written keyMaxRequestSize v → SizeKept bits v
  size : toInt (sec.number bits keyMaxRequestSize) < 2 ^ 21

/-- A choice by range is the same for two numbers if the first is in range or falls back. -/
theorem choice_eq_iff {P : ℤ → Prop} [DecidablePred P] {d v n : ℤ} (h : P v → n = v) :
    (if P n then n else d) = (if P v then v else d) ↔ P v ∨ ¬P n ∨ n = d := by
  by_cases hv : P v
  · obtain rfl := h hv
    exact iff_of_true rfl (Or.inl hv)
  · rw [if_neg hv]
    by_cases hn : P n
    · rw [if_pos hn]
      exact ⟨fun heq => Or.inr (Or.inr heq), fun hor =>
        (hor.resolve_left hv).resolve_left (not_not.2 hn)⟩
    · rw [if_neg hn]
      exact iff_of_true rfl (Or.inr (Or.inl hn))

/-! ### Settings -/

theorem serverport_choice (path : String) (num : ℤ) (s : Settings) :
    (configurePort path num s).serverport =
      if PortRange (toInt num) then toInt num else defaultServerPort := by
  rw [configurePort]
  by_cases h : PortRange (toInt num)
  · have hcheck : ¬(toInt num ≤ 1 ∨ 65535 ≤ toInt num) := fun hor =>
      hor.elim (Int.not_le.2 h.1) (Int.not_le.2 h.2)
    rw [if_pos h]
    simp only [if_neg hcheck]
  · have hcheck : toInt num ≤ 1 ∨ 65535 ≤ toInt num := by
      rw [PortRange] at h
      omega
    rw [if_neg h]
    simp only [if_pos hcheck]

theorem workersOf_choice (num : ℤ) :
    workersOf num = if WorkersRange (toShort num) then toShort num else workersDefault := by
  have hlt := toShort_lt num
  rw [workersOf]
  by_cases h : toShort num < 1
  · rw [if_pos h, if_neg fun hr => absurd h (Int.not_lt.2 hr.1)]
  · rw [if_neg h, if_pos ⟨Int.not_lt.1 h, hlt⟩]

/-- The request size, where the code gets past the multiplication. -/
theorem requestSize_choice {path : String} {num : ℤ} {s s' : Settings}
    (h : configureRequestSize path num s = .ok s') :
    s'.maxRequestSize =
      if SizeRange (toInt num) then 1024 * toInt num else defaultMaxRequestSize := by
  rw [configureRequestSize] at h
  simp only [] at h
  split_ifs at h with hle hover
  · obtain rfl := Except.ok.inj h
    rw [if_neg fun hr => absurd hr.1 (by omega)]
  · obtain rfl := Except.ok.inj h
    have hr : SizeRange (toInt num) := ⟨by omega, by omega⟩
    rw [if_pos hr, Int.mul_comm 1024]

theorem portKept_iff {bits : ℕ} (hbits : 32 ≤ bits) (path : String) (v : ℤ) (s : Settings) :
    (configurePort path (toLong bits v) s).serverport = effectivePort v ↔ PortKept bits v := by
  rw [serverport_choice, effectivePort]
  exact choice_eq_iff fun hv =>
    toInt_toLong_of_range hbits (by have := hv.1; omega) (by have := hv.2; omega)

theorem workersKept_iff {bits : ℕ} (hbits : 32 ≤ bits) (v : ℤ) :
    workersOf (toLong bits v) = effectiveWorkers v ↔ WorkersKept bits v := by
  rw [workersOf_choice, effectiveWorkers]
  refine choice_eq_iff fun hv => ?_
  have hlo := hv.1
  have hhi := hv.2
  rw [toLong_of_range hbits (by omega) (by omega), toShort_of_range (by omega) hhi]

/-- The request size of a written number, where the multiplication does not overflow. -/
theorem sizeKept_iff {bits : ℕ} (hbits : 32 ≤ bits) {v : ℤ}
    (hlt : toInt (toLong bits v) < 2 ^ 21) :
    (if SizeRange (toInt (toLong bits v)) then 1024 * toInt (toLong bits v)
      else defaultMaxRequestSize) = effectiveRequestSize v ↔ SizeKept bits v := by
  rw [effectiveRequestSize, SizeKept]
  by_cases hv : SizeRange v
  · have hlo := hv.1
    have hhi := hv.2
    rw [toInt_toLong_of_range hbits (by omega) (by omega)]
    exact iff_of_true rfl (Or.inl hv)
  · rw [if_neg hv, or_iff_right hv]
    by_cases hn : toInt (toLong bits v) ≤ 0
    · rw [if_neg fun hr => absurd hr.1 (by omega)]
      exact iff_of_true rfl (Or.inl hn)
    · rw [if_pos ⟨by omega, by omega⟩, or_iff_right hn]

/-! ### The section -/

theorem ConfigSection.Written.number {sec : ConfigSection} {key : List UInt8} {v : ℤ}
    (h : sec.Written key v) (bits : ℕ) : sec.number bits key = toLong bits v := by
  obtain ⟨e, text, hlookup, hval, hwrites⟩ := h
  rw [ConfigSection.number, hlookup]
  simp only [hval, Option.getD_some]
  exact strtol_of_writes hwrites

/-- With the three numbers of the section the settings end as written exactly when the numbers
written are kept and the request size does not overflow. -/
theorem faithful_configured_iff {bits : ℕ} (hbits : 32 ≤ bits) (path : String) (rlimCur : ℕ)
    (sec : ConfigSection) (s : Settings) :
    (∃ s', configureRequestSize path (sec.number bits keyMaxRequestSize)
      (configureWorkers path rlimCur (sec.number bits keyWorkers)
        (configurePort path (sec.number bits keyPort) s)) = .ok s' ∧ s'.Faithful sec) ↔
      (∀ v, sec.Written keyPort v → PortKept bits v) ∧
        (∀ v, sec.Written keyWorkers v → WorkersKept bits v) ∧
        (∀ v, sec.Written keyMaxRequestSize v → SizeKept bits v) ∧
        toInt (sec.number bits keyMaxRequestSize) < 2 ^ 21 := by
  rcases configureRequestSize_cases path (sec.number bits keyMaxRequestSize)
      (configureWorkers path rlimCur (sec.number bits keyWorkers)
        (configurePort path (sec.number bits keyPort) s)) with
    ⟨hge, herr⟩ | ⟨hlt, s', hok, hpos, hport, hworkers, -, -⟩
  · refine iff_of_false ?_ fun h => absurd h.2.2.2 (Int.not_lt.2 hge)
    rintro ⟨s', hok, -⟩
    rw [herr] at hok
    cases hok
  rw [serverport_configureWorkers] at hport
  rw [workers_configureWorkers] at hworkers
  have hsize := requestSize_choice hok
  have hport_iff : ∀ v, sec.Written keyPort v →
      (s'.serverport = effectivePort v ↔ PortKept bits v) := by
    intro v hv
    rw [hport, hv.number bits]
    exact portKept_iff hbits path v s
  have hworkers_iff : ∀ v, sec.Written keyWorkers v →
      (s'.workers = effectiveWorkers v ↔ WorkersKept bits v) := by
    intro v hv
    rw [hworkers, hv.number bits]
    exact workersKept_iff hbits v
  have hsize_iff : ∀ v, sec.Written keyMaxRequestSize v →
      (s'.maxRequestSize = effectiveRequestSize v ↔ SizeKept bits v) := by
    intro v hv
    rw [hv.number bits] at hsize hlt
    rw [hsize]
    exact sizeKept_iff hbits hlt
  constructor
  · rintro ⟨s'', hok', hfaithful⟩
    obtain rfl := Except.ok.inj (hok.symm.trans hok')
    exact ⟨fun v hv => (hport_iff v hv).1 (hfaithful.port v hv),
      fun v hv => (hworkers_iff v hv).1 (hfaithful.workers v hv),
      fun v hv => (hsize_iff v hv).1 (hfaithful.requestSize v hv), hlt⟩
  · rintro ⟨hp, hw, hs, -⟩
    exact ⟨s', hok, fun v hv => (hport_iff v hv).2 (hp v hv),
      fun v hv => (hworkers_iff v hv).2 (hw v hv), fun v hv => (hsize_iff v hv).2 (hs v hv),
      Int.lt_of_lt_of_le (by decide) hpos⟩

/-- The settings of a file with a section `SERVER` end as its numbers were written, or at the
defaults, exactly when the section keeps its numbers. -/
theorem faithful_iff {bits : ℕ} (hbits : 32 ≤ bits) (junk : Vector UInt8 255)
    (pathConf fileConf : String) (rlimCur : ℕ) {file : List UInt8} {cnf : ConfigFile}
    (hcnf : configCreate junk (some file) = .ok (some cnf)) {sec : ConfigSection}
    (hsec : sectionGet keyServer cnf = some sec) (s : Settings) :
    (∃ s', configReadFiles bits junk pathConf fileConf rlimCur (.directory (some file)) s =
      .ok s' ∧ s'.Faithful sec) ↔ sec.Keeps bits := by
  simp only [configReadFiles, bind_eq_ok, hcnf, Except.ok.injEq, exists_eq_left']
  simp only [mapSettings_eq_ok hsec]
  constructor
  · rintro ⟨s', ⟨hfound, hs'⟩, hfaithful⟩
    obtain ⟨hport, hworkers, hsize, hlt⟩ :=
      (faithful_configured_iff hbits _ rlimCur sec _).1 ⟨s', hs', hfaithful⟩
    exact ⟨hfound.listen, by simpa using ⟨hfound.port, hfound.workers, hfound.requestSize⟩, hport,
      hworkers, hsize, hlt⟩
  · intro h
    have hfound := h.found
    obtain ⟨s', hs', hfaithful⟩ :=
      (faithful_configured_iff hbits (pathConf ++ "/" ++ fileConf) rlimCur sec
        (Settings.mapped cnf sec { s with workers := workersDefault })).2
          ⟨h.port, h.workers, h.requestSize, h.size⟩
    exact ⟨s', ⟨⟨h.listen, hfound _ (by simp), hfound _ (by simp), hfound _ (by simp)⟩, hs'⟩,
      hfaithful⟩

/-- The section of `serverConf`. -/
def serverConfSection : ConfigSection :=
  ⟨keyServer, [⟨some keyPort, some [0x32, 0x30, 0x30, 0x31]⟩]⟩

theorem faithful_serverConf : ∃ s',
    configReadFiles 64 (Vector.replicate 255 0) "conf" "raifull.conf" 64
      (.directory (some serverConf)) .init = .ok s' ∧ s'.Faithful serverConfSection := by
  have hcnf : configCreate (Vector.replicate 255 0) (some serverConf) =
      .ok (some ⟨[serverConfSection], []⟩) := by decide +kernel
  refine (faithful_iff (by decide) (Vector.replicate 255 0) "conf" "raifull.conf" 64 hcnf
    (by decide +kernel) .init).2 ?_
  have hfound : serverConfSection.Found := ConfigSection.found_of_complete (by decide)
  have hother : ∀ key ∈ [keyWorkers, keyMaxRequestSize],
      serverConfSection.lookup key = none := by decide
  refine ⟨hfound.listen, ?_, fun v hv => Or.inl ?_, ?_, ?_, by decide +kernel⟩
  · simpa using ⟨hfound.port, hfound.workers, hfound.requestSize⟩
  · have hnum := hv.number 64
    have hval : serverConfSection.number 64 keyPort = 2001 := by decide +kernel
    rw [hval, toLong] at hnum
    constructor <;> omega
  · rintro v ⟨e, text, hlookup, -⟩
    rw [hother _ (by simp)] at hlookup
    cases hlookup
  · rintro v ⟨e, text, hlookup, -⟩
    rw [hother _ (by simp)] at hlookup
    cases hlookup

/-- `[SERVER]`, and a port of 2³² + 80 below it. -/
def largePort : List UInt8 :=
  [0x5B, 0x53, 0x45, 0x52, 0x56, 0x45, 0x52, 0x5D, 0x0A, 0x20, 0x50, 0x6F, 0x72, 0x74, 0x20,
    0x34, 0x32, 0x39, 0x34, 0x39, 0x36, 0x37, 0x33, 0x37, 0x36, 0x0A]

/-- The section of the file. -/
def largePortSection : ConfigSection :=
  ⟨keyServer, [⟨some keyPort,
    some [0x34, 0x32, 0x39, 0x34, 0x39, 0x36, 0x37, 0x33, 0x37, 0x36]⟩]⟩

/-- The port becomes 80. -/
theorem not_faithful_largePort : ¬∀ (bits : ℕ) (junk : Vector UInt8 255)
    (pathConf fileConf : String) (rlimCur : ℕ) (file : List UInt8) (cnf : ConfigFile)
    (sec : ConfigSection) (s : Settings), 32 ≤ bits →
      configCreate junk (some file) = .ok (some cnf) → sectionGet keyServer cnf = some sec →
      sec.Found → ∃ s', configReadFiles bits junk pathConf fileConf rlimCur
        (.directory (some file)) s = .ok s' ∧ s'.Faithful sec := by
  intro h
  have hfound : largePortSection.Found := ConfigSection.found_of_complete (by decide)
  obtain ⟨s', hs', hfaithful⟩ := h 64 (Vector.replicate 255 0) "conf" "raifull.conf" 64 largePort
    ⟨[largePortSection], []⟩ largePortSection .init (by decide) (by decide +kernel)
    (by decide +kernel) hfound
  have hport : (configReadFiles 64 (Vector.replicate 255 0) "conf" "raifull.conf" 64
      (.directory (some largePort)) .init).toOption.map Settings.serverport = some 80 := by
    decide +kernel
  rw [hs'] at hport
  have hwritten : largePortSection.Written keyPort 4294967376 :=
    ⟨_, _, rfl, rfl, .plain (List.cons_ne_nil _ _) (List.all_eq_true.1 rfl)⟩
  have hmeant := hfaithful.port _ hwritten
  rw [Option.some.inj hport] at hmeant
  exact absurd hmeant (by decide)

end Xlab
