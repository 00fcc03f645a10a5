import Xlab.Gateway
import Xlab.Runs

/-!
# The registration of the commands

Every `cmd_*.c` file registers its command in a constructor that runs before `main`, and C does not
say in which order the constructors run. The table has room for 32 entries, a lookup takes the
first with the code, and a registration beyond is rejected.

`registration_order_irrelevant` : as long as the codes are distinct and the table has room, the
gateway does the same in every run, whatever the order of the registrations.
-/

namespace Xlab

variable {W : Type}

/-! ## The table -/

/-- The table after registrations in order, from an empty one. -/
def routerRegisterAll (es : List (RouterEntry W)) : RouterTable W :=
  Runs.run (fun t e => (routerRegister t e).2) [] es

theorem run_routerRegister (t : RouterTable W) (es : List (RouterEntry W))
    (ht : t.length ≤ routerMaxCmds) :
    Runs.run (fun t e => (routerRegister t e).2) t es =
      t ++ es.take (routerMaxCmds - t.length) := by
  induction es generalizing t with
  | nil => simp
  | cons e es ih =>
    rw [Runs.run_cons, routerRegister]
    split_ifs with hfull
    · have hzero : routerMaxCmds - t.length = 0 := Nat.sub_eq_zero_of_le hfull
      rw [ih t ht, hzero, List.take_zero, List.take_zero]
    · obtain ⟨n, hn⟩ : ∃ n, routerMaxCmds - t.length = n + 1 :=
        ⟨routerMaxCmds - t.length - 1, by omega⟩
      have hrest : routerMaxCmds - (t ++ [e]).length = n := by
        rw [List.length_append, List.length_singleton]
        omega
      rw [ih (t ++ [e]) (by rw [List.length_append, List.length_singleton]; omega), hrest, hn,
        List.take_succ_cons, List.append_assoc, List.singleton_append]

/-- The first 32 registrations are in the table, in order. -/
theorem routerRegisterAll_eq (es : List (RouterEntry W)) :
    routerRegisterAll es = es.take routerMaxCmds := by
  rw [routerRegisterAll, run_routerRegister [] es (Nat.zero_le _)]
  rfl

/-! ## What the gateway sees of it -/

/-- Lookups give the same entries. -/
def RouterTable.Same (t t' : RouterTable W) : Prop :=
  ∀ cmd, routerLookup t cmd = routerLookup t' cmd

theorem routerProcess_congr {t t' : RouterTable W} (h : t.Same t') (cmd : UInt8)
    (payload : List UInt8) (seq : UInt32) (world : W) :
    routerProcess t cmd payload seq world = routerProcess t' cmd payload seq world := by
  unfold routerProcess
  rw [h cmd]

theorem tcpFrame_congr {t t' : RouterTable W} (h : t.Same t') (w : ℕ) (f : Frame) (l : Link W) :
    tcpFrame w t f l = tcpFrame w t' f l := by
  have hsync : ∀ seq l, syncAnswer w t f seq l = syncAnswer w t' f seq l := by
    intro seq l
    unfold syncAnswer
    rw [routerProcess_congr h]
  simp only [tcpFrame, h f.cmd, hsync]

theorem connReadTcp_congr {t t' : RouterTable W} (h : t.Same t') (cfg : ServerConfig) (w : ℕ)
    (r : ReadOutcome) (l : Link W) : connReadTcp cfg w t r l = connReadTcp cfg w t' r l := by
  have hreact : tcpReact w t = tcpReact w t' := by
    funext it l
    cases it with
    | incomplete => rfl
    | chkErr => rfl
    | frame f => exact tcpFrame_congr h w f l
  unfold connReadTcp connReadMax connParse
  rw [hreact]

theorem connReadUdp_congr {t t' : RouterTable W} (h : t.Same t') (tr : TransType)
    (datagram : List UInt8) (sh : Shared W) :
    connReadUdp tr t datagram sh = connReadUdp tr t' datagram sh := by
  have hreact : udpReact tr t = udpReact tr t' := by
    funext it s
    cases it with
    | incomplete => rfl
    | chkErr => rfl
    | frame f => simp only [udpReact, udpFrame, routerProcess_congr h]
  simp only [connReadUdp, hreact]

/-- The setup with another table. -/
def Setup.withTable (s : Setup W) (t : RouterTable W) : Setup W :=
  { s with table := t }

namespace Gateway

/-- Handlers look at the table only through lookups. -/
theorem connRead_congr {t t' : RouterTable W} (h : t.Same t') (s : Setup W) (g : Gateway W)
    (w : ℕ) (fd : ℤ) (r : ReadOutcome) :
    g.connRead (s.withTable t) w fd r = g.connRead (s.withTable t') w fd r := by
  have hudp : ∀ tr, connReadUdp tr (s.withTable t).table = connReadUdp tr (s.withTable t').table :=
    fun tr => funext fun bytes => funext fun sh => connReadUdp_congr h tr bytes sh
  have htcp : connReadTcp s.server w (s.withTable t).table r =
      connReadTcp s.server w (s.withTable t').table r :=
    funext fun l => connReadTcp_congr h s.server w r l
  have hdatagram : g.connReadDatagram (s.withTable t) fd r =
      g.connReadDatagram (s.withTable t') fd r := by
    unfold connReadDatagram
    simp only [hudp]
  have hevent : (s.withTable t).eventFd = (s.withTable t').eventFd := rfl
  unfold connRead
  rw [hevent]
  split_ifs
  · rfl
  · exact hdatagram
  · cases g.openSession w fd with
    | none => rfl
    | some p => exact congrArg (p.2.leave w fd) (congrFun htcp ⟨p.1, p.2.shared⟩)

theorem step_congr {t t' : RouterTable W} (h : t.Same t') (s : Setup W) (g : Gateway W)
    (e : Event) : g.step (s.withTable t) e = g.step (s.withTable t') e := by
  cases e with
  | accept fd added => rfl
  | epoll w fd ready r =>
    cases ready with
    | input => exact congrArg (closeFailed w fd) (connRead_congr h s g w fd r)
    | output => rfl
    | error => rfl
  | work i => rfl
  | sockets script => rfl

theorem run_congr {t t' : RouterTable W} (h : t.Same t') (s : Setup W) (g : Gateway W)
    (evs : List Event) :
    Runs.run (step (s.withTable t)) g evs = Runs.run (step (s.withTable t')) g evs := by
  have hstep : step (s.withTable t) = step (s.withTable t') := by
    funext g e
    exact step_congr h s g e
  rw [hstep]

end Gateway

/-! ## Orders of registration -/

/-- With distinct codes a lookup gives the entry with the code. -/
theorem routerLookup_eq_some {es : List (RouterEntry W)}
    (hcodes : (es.map RouterEntry.cmdCode).Nodup) {cmd : UInt8} {e : RouterEntry W} :
    routerLookup es cmd = some e ↔ e ∈ es ∧ e.cmdCode = cmd := by
  constructor
  · intro h
    exact ⟨List.mem_of_find?_eq_some h, by simpa using List.find?_some h⟩
  · rintro ⟨hmem, rfl⟩
    obtain ⟨pre, post, rfl⟩ := List.append_of_mem hmem
    rw [List.map_append, List.map_cons] at hcodes
    refine List.find?_eq_some_iff_append.2 ⟨by simp, pre, post, rfl, fun d hd => ?_⟩
    have hne : d.cmdCode ≠ e.cmdCode :=
      (List.nodup_append.1 hcodes).2.2 _ (List.mem_map_of_mem hd) _ List.mem_cons_self
    simpa using hne

/-- The order of the registrations does not matter to any run of the gateway. -/
theorem registration_order_irrelevant {es es' : List (RouterEntry W)} (hperm : es.Perm es')
    (hcodes : (es.map RouterEntry.cmdCode).Nodup) (hroom : es.length ≤ routerMaxCmds)
    (s : Setup W) (g : Gateway W) (evs : List Gateway.Event) :
    Runs.run (Gateway.step (s.withTable (routerRegisterAll es))) g evs =
      Runs.run (Gateway.step (s.withTable (routerRegisterAll es'))) g evs := by
  have hcodes' : (es'.map RouterEntry.cmdCode).Nodup :=
    (hperm.map RouterEntry.cmdCode).nodup hcodes
  rw [routerRegisterAll_eq, routerRegisterAll_eq, List.take_of_length_le hroom,
    List.take_of_length_le (hperm.length_eq ▸ hroom)]
  refine Gateway.run_congr (fun cmd => Option.ext fun e => ?_) s g evs
  rw [routerLookup_eq_some hcodes, routerLookup_eq_some hcodes', hperm.mem_iff]

/-- The registrations of `cmd_02.c` and `cmd_06.c`. -/
def cmdEntries : List (RouterEntry Unit) :=
  [⟨cmdGetVer, cmd02HandlerGetVersion, 0, 0, cmdFlagNone⟩,
    ⟨cmdStartRead, cmd06HandlerStartRead, 2, 4, cmdFlagBlocking⟩]

example : routerRegisterAll cmdEntries = cmdTable :=
  rfl

/-- A client asks for the version. -/
def versionEvents : List Gateway.Event :=
  [.accept 7 true, .epoll 0 7 .output (.data []),
    .epoll 0 7 .input (.data [0x40, 0x02, 0x02, 0xBC])]

theorem registration_order_irrelevant_cmdEntries :
    Runs.run (Gateway.step (idleSetup.withTable (routerRegisterAll cmdEntries))) idleGateway
        versionEvents =
      Runs.run (Gateway.step (idleSetup.withTable (routerRegisterAll cmdEntries.reverse)))
        idleGateway versionEvents :=
  registration_order_irrelevant cmdEntries.reverse_perm.symm (by decide) (by decide) idleSetup
    idleGateway versionEvents

end Xlab
