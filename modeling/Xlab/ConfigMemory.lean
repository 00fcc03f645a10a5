import Xlab.Blocks
import Xlab.Lists

/-!
# The configuration in memory

`xlab_config_section_add` and `xlab_config_entry_add` build two levels of lists : the sections of
the configuration and the entries of each section. Names, keys and values are copied to blocks of
their own, and a key or value that is missing is a null pointer. `xlab_config_free` takes the lists
apart again, from the front, while it loops over them.

`configMemory_freed` : after any additions that start with a section, wherever the allocator puts
the blocks, the memory holds the sections they say. Freeing the configuration then follows no
pointer that is not there and frees no block twice, and the blocks that are left are those that were
there before the configuration was created.
-/

open Blocks Circle

namespace Xlab

variable {α : Type*}

/-! ## The code -/

/-- The links of a record : its `_head`, and the head of the list inside it, which is `sections` or
`entries`. -/
inductive ConfigCell (α : Type*) where
  | node (a : α)
  | list (a : α)
  deriving DecidableEq

/-- A block : `struct xlab_config`, `struct xlab_config_section`, `struct xlab_config_entry` or a
string. -/
inductive ConfigBlock (α : Type*) where
  | conf (file : α)
  | section (name : α)
  | entry (key val : Option α)
  | text (s : List UInt8)

/-- The links of the records, and what is allocated. -/
structure ConfigMemory (α : Type*) where
  links : Heap (ConfigCell α)
  block : α → Option (ConfigBlock α)

namespace ConfigMemory

variable [DecidableEq α]

/-- `xlab_mem_malloc` has given the block at `a`. -/
def alloc (a : α) (b : ConfigBlock α) (m : ConfigMemory α) : ConfigMemory α :=
  { m with block := Function.update m.block a (some b) }

/-- `xlab_string_dup`, with the address a copy gets. -/
def dup (s : Option (α × List UInt8)) (m : ConfigMemory α) : ConfigMemory α :=
  match s with
  | none => m
  | some s => m.alloc s.1 (.text s.2)

/-- `xlab_mem_free` of a pointer that is not null. The links of the record may be anything
afterwards. -/
def free (junk : ConfigCell α → ListLinks (ConfigCell α)) (a : α) (m : ConfigMemory α) :
    Except Fault (ConfigMemory α) :=
  match m.block a with
  | none => .error .outOfBounds
  | some _ => .ok
    { links := Function.update (Function.update m.links (.node a) (junk (.node a)))
        (.list a) (junk (.list a))
      block := Function.update m.block a none }

/-- `xlab_mem_free`. -/
def freePtr (junk : ConfigCell α → ListLinks (ConfigCell α)) (p : Option α) (m : ConfigMemory α) :
    Except Fault (ConfigMemory α) :=
  match p with
  | none => .ok m
  | some a => m.free junk a

/-- The first lines of `xlab_config_create`. -/
def create (conf file : α) (path : List UInt8) (m : ConfigMemory α) :
    Except Fault (ConfigMemory α) := do
  let m := (m.alloc conf (.conf file)).dup (some (file, path))
  let links ← listInit (.list conf) m.links
  return { m with links := links }

/-- `xlab_config_section_add`. -/
def sectionAdd (conf new : α) (name : α × List UInt8) (m : ConfigMemory α) :
    Except Fault (ConfigMemory α) := do
  let m := (m.alloc new (.section name.1)).dup (some name)
  let links ← listInit (.list new) m.links
  let links ← listAdd (.node new) (.list conf) links
  return { m with links := links }

/-- `xlab_list_entry_last` of the sections. -/
def lastSection (conf : α) (m : ConfigMemory α) : Except Fault α :=
  match m.links.prev (.list conf) with
  | none => .error .nullPointer
  | some (.node a) => .ok a
  | some (.list _) => .error .outOfBounds

/-- `xlab_config_entry_add`. -/
def entryAdd (conf new : α) (key val : Option (α × List UInt8)) (m : ConfigMemory α) :
    Except Fault (ConfigMemory α) := do
  let s ← m.lastSection conf
  let m := ((m.alloc new (.entry (key.map Prod.fst) (val.map Prod.fst))).dup key).dup val
  let links ← listAdd (.node new) (.list s) m.links
  return { m with links := links }

end ConfigMemory

/-- The turns of `xlab_list_foreach_safe` over the memory, `none` where they do not suffice. -/
def configTurns (body : ConfigCell α → ConfigMemory α → Option (Except Fault (ConfigMemory α)))
    [DecidableEq α] (head : ConfigCell α) :
    ℕ → ConfigCell α → Option (ConfigCell α) → ConfigMemory α →
      Option (Except Fault (ConfigMemory α))
  | 0, _, _, _ => none
  | fuel + 1, curr, tmp, m =>
    if curr = head then some (.ok m)
    else
      match body curr m with
      | none => none
      | some (.error f) => some (.error f)
      | some (.ok m) =>
        match tmp with
        | none => some (.error .nullPointer)
        | some c => configTurns body head fuel c (m.links.next c) m

/-- `xlab_list_foreach_safe` over the memory. -/
def configForeach [DecidableEq α]
    (body : ConfigCell α → ConfigMemory α → Option (Except Fault (ConfigMemory α)))
    (head : ConfigCell α) (fuel : ℕ) (m : ConfigMemory α) :
    Option (Except Fault (ConfigMemory α)) :=
  match m.links.next head with
  | none => some (.error .nullPointer)
  | some c => configTurns body head fuel c (m.links.next c) m

namespace ConfigMemory

variable [DecidableEq α] (junk : ConfigCell α → ListLinks (ConfigCell α))

/-- The body of the loop of `xlab_config_free_entries`. -/
def freeEntry (curr : ConfigCell α) (m : ConfigMemory α) : Except Fault (ConfigMemory α) :=
  match curr with
  | .list _ => .error .outOfBounds
  | .node e => do
    let links ← listDel (.node e) m.links
    match m.block e with
    | some (.entry key val) =>
      let m ← freePtr junk key { m with links := links }
      let m ← freePtr junk val m
      m.free junk e
    | _ => .error .outOfBounds

/-- `xlab_config_free_entries`. -/
def freeEntries (fuel : ℕ) (s : α) (m : ConfigMemory α) : Option (Except Fault (ConfigMemory α)) :=
  configForeach (fun curr m => some (freeEntry junk curr m)) (.list s) fuel m

/-- The end of the body of the loop of `xlab_config_free`. -/
def freeSection (s : α) (m : ConfigMemory α) : Except Fault (ConfigMemory α) :=
  match m.block s with
  | some (.section name) => do
    let m ← m.free junk name
    m.free junk s
  | _ => .error .outOfBounds

/-- The body of the loop of `xlab_config_free`. -/
def freeSectionTurn (fuel : ℕ) (curr : ConfigCell α) (m : ConfigMemory α) :
    Option (Except Fault (ConfigMemory α)) :=
  match curr with
  | .list _ => some (.error .outOfBounds)
  | .node s =>
    match listDel (.node s) m.links with
    | .error f => some (.error f)
    | .ok links =>
      match freeEntries junk fuel s { m with links := links } with
      | none => none
      | some (.error f) => some (.error f)
      | some (.ok m) => some (freeSection junk s m)

/-- `xlab_config_free`. -/
def configFree (fuel : ℕ) (conf : α) (m : ConfigMemory α) :
    Option (Except Fault (ConfigMemory α)) :=
  match configForeach (freeSectionTurn junk fuel) (.list conf) fuel m with
  | none => none
  | some (.error f) => some (.error f)
  | some (.ok m) =>
    match m.block conf with
    | some (.conf file) => some do
      let m ← m.free junk file
      m.free junk conf
    | _ => some (.error .outOfBounds)

end ConfigMemory

/-- A call that adds to the configuration, with the addresses of the blocks it allocates. -/
inductive ConfigCall (α : Type*) where
  | section (addr : α) (name : α × List UInt8)
  | entry (addr : α) (key val : Option (α × List UInt8))

/-- The addresses the call allocates. -/
def ConfigCall.addrs : ConfigCall α → List α
  | .section addr name => [addr, name.1]
  | .entry addr key val => addr :: (key.toList.map Prod.fst ++ val.toList.map Prod.fst)

/-- The call on the sections alone. -/
def ConfigCall.read (r : Reader) : ConfigCall α → Except Fault Reader
  | .section _ name => .ok (r.sectionAdd name.2)
  | .entry _ key val => r.entryAdd (key.map Prod.snd) (val.map Prod.snd)

/-- The call on the memory. -/
def ConfigMemory.step [DecidableEq α] (conf : α) (m : ConfigMemory α) :
    ConfigCall α → Except Fault (ConfigMemory α)
  | .section addr name => m.sectionAdd conf addr name
  | .entry addr key val => m.entryAdd conf addr key val

/-! ## What the memory holds -/

/-- The record a cell is in. -/
def ConfigCell.base : ConfigCell α → α
  | .node a => a
  | .list a => a

/-- The block of a string. -/
def textBlock (s : α × List UInt8) : α × ConfigBlock α :=
  (s.1, .text s.2)

/-- The lists `q` are made of links in the records `recs`, which are allocated along with the
strings `texts` and with nothing else that was not there outside. -/
structure ConfigMemory.Owns (outside : α → Option (ConfigBlock α)) (heads : List (ConfigCell α))
    (q : Queues (ConfigCell α)) (recs texts : List (α × ConfigBlock α)) (m : ConfigMemory α) :
    Prop where
  links : Represents m.links heads q
  owned : Owned outside (recs ++ texts) m.block
  bases : ∀ l xs, q l = some xs → ∀ c ∈ l :: xs, c.base ∈ recs.map Prod.fst

namespace ConfigMemory.Owns

variable [DecidableEq α] {outside : α → Option (ConfigBlock α)} {heads : List (ConfigCell α)}
  {q : Queues (ConfigCell α)} {recs texts recs' texts' : List (α × ConfigBlock α)}
  {m : ConfigMemory α} {junk : ConfigCell α → ListLinks (ConfigCell α)} {a : α}
  {b : ConfigBlock α}

omit [DecidableEq α] in
theorem perm (h : Owns outside heads q recs texts m) (hr : recs.Perm recs')
    (ht : texts.Perm texts') : Owns outside heads q recs' texts' m where
  links := h.links
  owned := h.owned.perm (hr.append ht)
  bases l xs hl c hc := (hr.map Prod.fst).mem_iff.1 (h.bases l xs hl c hc)

omit [DecidableEq α] in
theorem block_eq (h : Owns outside heads q recs texts m) (ha : (a, b) ∈ recs) :
    m.block a = some b :=
  h.owned.holds (a, b) (List.mem_append_left texts ha)

omit [DecidableEq α] in
/-- The cells of an address no list uses are in no list. -/
theorem unlisted (h : Owns outside heads q recs texts m) {c : ConfigCell α}
    (hc : c.base ∉ recs.map Prod.fst) : Unlisted m.links heads c :=
  h.links.unlisted_iff.2 fun l xs hl hmem => hc (h.bases l xs hl c hmem)

omit [DecidableEq α] in
theorem not_mem_of_free (h : Owns outside heads q recs texts m) (ha : m.block a = none) :
    a ∉ recs.map Prod.fst := by
  have hnot := h.owned.not_mem ha
  rw [List.map_append, List.mem_append, not_or] at hnot
  exact hnot.1

theorem allocText (h : Owns outside heads q recs texts m) (ha : m.block a = none)
    (b : ConfigBlock α) : Owns outside heads q recs ((a, b) :: texts) (m.alloc a b) where
  links := h.links
  owned := (h.owned.alloc ha b).perm List.perm_middle.symm
  bases := h.bases

theorem allocRec (h : Owns outside heads q recs texts m) (ha : m.block a = none)
    (b : ConfigBlock α) : Owns outside heads q ((a, b) :: recs) texts (m.alloc a b) where
  links := h.links
  owned := h.owned.alloc ha b
  bases l xs hl c hc := List.mem_cons_of_mem _ (h.bases l xs hl c hc)

/-- Freeing memory that no list uses. -/
theorem links_free (h : Represents m.links heads q)
    (ha : ∀ l xs, q l = some xs → ∀ c ∈ l :: xs, c.base ≠ a) :
    Represents (Function.update (Function.update m.links (.node a) (junk (.node a)))
      (.list a) (junk (.list a))) heads q := by
  have hnode := h.reuse (a := .node a)
    (h.unlisted_iff.2 fun l xs hl hmem => ha l xs hl _ hmem rfl) (junk (.node a))
  exact hnode.reuse (a := .list a)
    (hnode.unlisted_iff.2 fun l xs hl hmem => ha l xs hl _ hmem rfl) (junk (.list a))

theorem freeText (junk : ConfigCell α → ListLinks (ConfigCell α))
    (h : Owns outside heads q recs ((a, b) :: texts) m) :
    ∃ m', m.free junk a = .ok m' ∧ Owns outside heads q recs texts m' := by
  have howned := h.owned.perm List.perm_middle
  have hblock : m.block a = some b := howned.holds (a, b) List.mem_cons_self
  have hnot : a ∉ recs.map Prod.fst := by
    have hnodup := (List.nodup_cons.1 howned.nodup).1
    rw [List.map_append, List.mem_append, not_or] at hnodup
    exact hnodup.1
  refine ⟨_, by rw [ConfigMemory.free, hblock], links_free h.links ?_, howned.free, h.bases⟩
  exact fun l xs hl c hc he => hnot (he ▸ h.bases l xs hl c hc)

theorem freePtr (junk : ConfigCell α → ListLinks (ConfigCell α)) {t : Option (α × List UInt8)}
    (h : Owns outside heads q recs (t.toList.map textBlock ++ texts) m) :
    ∃ m', m.freePtr junk (t.map Prod.fst) = .ok m' ∧ Owns outside heads q recs texts m' := by
  cases t with
  | none => exact ⟨m, rfl, h⟩
  | some s => exact h.freeText junk

theorem freeRec (junk : ConfigCell α → ListLinks (ConfigCell α))
    (h : Owns outside heads q ((a, b) :: recs) texts m)
    (hbases : ∀ l xs, q l = some xs → ∀ c ∈ l :: xs, c.base ∈ recs.map Prod.fst) :
    ∃ m', m.free junk a = .ok m' ∧ Owns outside heads q recs texts m' := by
  have hblock : m.block a = some b := h.block_eq List.mem_cons_self
  have hnot : a ∉ recs.map Prod.fst := by
    have hnodup := h.owned.nodup
    rw [List.cons_append, List.map_cons, List.nodup_cons, List.map_append, List.mem_append,
      not_or] at hnodup
    exact hnodup.1.1
  refine ⟨_, by rw [ConfigMemory.free, hblock], links_free h.links ?_, h.owned.free, hbases⟩
  exact fun l xs hl c hc he => hnot (he ▸ hbases l xs hl c hc)

end ConfigMemory.Owns

/-- An entry, with the addresses of its record and its strings. -/
structure EntryRecord (α : Type*) where
  addr : α
  key : Option (α × List UInt8)
  val : Option (α × List UInt8)

/-- A section, with the addresses of its record and its name. -/
structure SectionRecord (α : Type*) where
  addr : α
  name : α × List UInt8
  entries : List (EntryRecord α)

/-- The entry without its addresses. -/
def EntryRecord.entry (e : EntryRecord α) : ConfigEntry :=
  ⟨e.key.map Prod.snd, e.val.map Prod.snd⟩

/-- The section without its addresses. -/
def SectionRecord.section (s : SectionRecord α) : ConfigSection :=
  ⟨s.name.2, s.entries.map EntryRecord.entry⟩

/-- The blocks of the strings of an entry. -/
def EntryRecord.texts (e : EntryRecord α) : List (α × ConfigBlock α) :=
  (e.key.toList ++ e.val.toList).map textBlock

/-- The block of the record of an entry. -/
def EntryRecord.record (e : EntryRecord α) : α × ConfigBlock α :=
  (e.addr, .entry (e.key.map Prod.fst) (e.val.map Prod.fst))

/-- The blocks of the strings of a section. -/
def SectionRecord.texts (s : SectionRecord α) : List (α × ConfigBlock α) :=
  textBlock s.name :: s.entries.flatMap EntryRecord.texts

/-- The blocks of the records of a section. -/
def SectionRecord.records (s : SectionRecord α) : List (α × ConfigBlock α) :=
  (s.addr, .section s.name.1) :: s.entries.map EntryRecord.record

/-- The section with an entry more. -/
def SectionRecord.add (e : EntryRecord α) (s : SectionRecord α) : SectionRecord α :=
  { s with entries := s.entries ++ [e] }

/-- The cell of a section in the list of the configuration. -/
def SectionRecord.node (s : SectionRecord α) : ConfigCell α :=
  .node s.addr

/-- The list of the entries of a section. -/
def SectionRecord.list (s : SectionRecord α) : ConfigCell α :=
  .list s.addr

/-- The cells of its entries. -/
def SectionRecord.cells (s : SectionRecord α) : List (ConfigCell α) :=
  s.entries.map fun e => .node e.addr

namespace SectionRecord

variable (pre : List (SectionRecord α)) (s : SectionRecord α) (e : EntryRecord α)

theorem records_add : (pre ++ [s.add e]).flatMap records =
    (pre ++ [s]).flatMap records ++ [e.record] := by
  simp [records, add]

theorem texts_add : (pre ++ [s.add e]).flatMap texts =
    (pre ++ [s]).flatMap texts ++ (e.key.toList.map textBlock ++ e.val.toList.map textBlock) := by
  simp [texts, add, EntryRecord.texts]

variable (b : α × ConfigBlock α) (a : α) (name : α × List UInt8) (es : List (EntryRecord α))
  (rest : List (SectionRecord α))

theorem records_cons : (b :: (⟨a, name, e :: es⟩ :: rest : List _).flatMap records).Perm
    (e.record :: b :: (⟨a, name, es⟩ :: rest : List _).flatMap records) :=
  show ([b, (a, .section name.1)] ++ e.record :: (es.map EntryRecord.record ++
    rest.flatMap records)).Perm _ from List.perm_middle

theorem texts_cons : (b :: (⟨a, name, e :: es⟩ :: rest : List _).flatMap texts).Perm
    (e.key.toList.map textBlock ++ (e.val.toList.map textBlock ++
      b :: (⟨a, name, es⟩ :: rest : List _).flatMap texts)) := by
  have hsplit : b :: (⟨a, name, e :: es⟩ :: rest : List _).flatMap texts =
      [b, textBlock name] ++ (e.key.toList.map textBlock ++ (e.val.toList.map textBlock ++
        (es.flatMap EntryRecord.texts ++ rest.flatMap texts))) := by
    simp [texts, EntryRecord.texts]
  rw [hsplit]
  exact (List.perm_append_comm_assoc ..).trans
    ((List.perm_append_comm_assoc ..).append_left _)

end SectionRecord

/-- The memory holds a configuration with the sections `secs`, of which those in `linked` are in its
list, and nothing else that was not there outside. -/
structure ConfigMemory.Holds (outside : α → Option (ConfigBlock α)) (conf file : α)
    (path : List UInt8) (linked secs : List (SectionRecord α)) (m : ConfigMemory α) : Prop where
  owns : ∃ q, Owns outside (.list conf :: secs.map SectionRecord.list) q
      ((conf, .conf file) :: secs.flatMap SectionRecord.records)
      (textBlock (file, path) :: secs.flatMap SectionRecord.texts) m ∧
    q (.list conf) = some (linked.map SectionRecord.node) ∧
      ∀ s ∈ secs, q s.list = some s.cells

namespace ConfigMemory

variable [DecidableEq α] {outside : α → Option (ConfigBlock α)} {conf file : α}
  {path : List UInt8} {linked secs : List (SectionRecord α)} {m : ConfigMemory α}

theorem block_alloc_of_ne {a c : α} (h : c ≠ a) (b : ConfigBlock α) :
    (m.alloc a b).block c = m.block c :=
  Function.update_of_ne h _ _

theorem block_dup_of_ne {t : Option (α × List UInt8)} {a : α} (h : ∀ s ∈ t, a ≠ s.1) :
    (m.dup t).block a = m.block a := by
  cases t with
  | none => rfl
  | some s => exact Function.update_of_ne (h s rfl) _ _

@[simp] theorem links_dup (t : Option (α × List UInt8)) : (m.dup t).links = m.links := by
  cases t <;> rfl

theorem Owns.dup {heads : List (ConfigCell α)} {q : Queues (ConfigCell α)}
    {recs texts : List (α × ConfigBlock α)} (h : Owns outside heads q recs texts m)
    {t : Option (α × List UInt8)} (ht : ∀ s ∈ t, m.block s.1 = none) :
    Owns outside heads q recs (t.toList.map textBlock ++ texts) (m.dup t) := by
  cases t with
  | none => exact h
  | some s => exact h.allocText (ht s rfl) (.text s.2)

omit [DecidableEq α] in
/-- The lists of a configuration link its own records. -/
theorem base_mem (file : α) (secs : List (SectionRecord α)) {links : Heap (ConfigCell α)}
    {q : Queues (ConfigCell α)}
    (hr : Represents links (.list conf :: secs.map SectionRecord.list) q)
    (hconf : q (.list conf) = some (linked.map SectionRecord.node))
    (hsecs : ∀ s ∈ secs, q s.list = some s.cells) (hsub : linked ⊆ secs)
    (l : ConfigCell α) (xs : List (ConfigCell α)) (hl : q l = some xs) (c : ConfigCell α)
    (hc : c ∈ l :: xs) :
    c.base ∈ ((conf, .conf file) :: secs.flatMap SectionRecord.records).map Prod.fst := by
  have hrec : ∀ s ∈ secs, ∀ b ∈ s.records,
      b.1 ∈ ((conf, .conf file) :: secs.flatMap SectionRecord.records).map Prod.fst :=
    fun s hs b hb => List.mem_map_of_mem (List.mem_cons_of_mem _ (List.mem_flatMap.2 ⟨s, hs, hb⟩))
  rcases List.mem_cons.1 (hr.mem_heads hl) with rfl | hmem
  · obtain rfl := Option.some.inj (hconf.symm.trans hl)
    rcases List.mem_cons.1 hc with rfl | hc
    · exact List.mem_cons_self
    · obtain ⟨s, hs, rfl⟩ := List.mem_map.1 hc
      exact hrec s (hsub hs) _ List.mem_cons_self
  · obtain ⟨s, hs, rfl⟩ := List.mem_map.1 hmem
    obtain rfl := Option.some.inj ((hsecs s hs).symm.trans hl)
    rcases List.mem_cons.1 hc with rfl | hc
    · exact hrec s hs _ List.mem_cons_self
    · obtain ⟨e, he, rfl⟩ := List.mem_map.1 hc
      exact hrec s hs _ (List.mem_cons_of_mem _ (List.mem_map_of_mem he))

omit [DecidableEq α] in
theorem holds_of_lists {links : Heap (ConfigCell α)} {block : α → Option (ConfigBlock α)}
    {q : Queues (ConfigCell α)}
    (hr : Represents links (.list conf :: secs.map SectionRecord.list) q)
    (howned : Owned outside (((conf, .conf file) :: secs.flatMap SectionRecord.records) ++
      textBlock (file, path) :: secs.flatMap SectionRecord.texts) block)
    (hconf : q (.list conf) = some (linked.map SectionRecord.node))
    (hsecs : ∀ s ∈ secs, q s.list = some s.cells) (hsub : linked ⊆ secs) :
    Holds outside conf file path linked secs ⟨links, block⟩ :=
  ⟨q, ⟨hr, howned, base_mem file secs hr hconf hsecs hsub⟩, hconf, hsecs⟩

theorem Holds.create (hconf : m.block conf = none) (hfile : m.block file = none)
    (hne : file ≠ conf) (path : List UInt8) :
    ∃ m', m.create conf file path = .ok m' ∧ Holds m.block conf file path [] [] m' ∧
      m'.block = ((m.alloc conf (.conf file)).dup (some (file, path))).block := by
  have hempty : Owns m.block [] (fun _ => none) [] [] m :=
    ⟨represents_empty m.links, .nil m.block, nofun⟩
  have hfile' : (m.alloc conf (.conf file)).block file = none :=
    (block_alloc_of_ne hne _).trans hfile
  have h := (hempty.allocRec hconf (.conf file)).allocText hfile' (.text path)
  obtain ⟨links, hrun, hr⟩ := h.links.listInit (l := .list conf)
    ⟨List.not_mem_nil, List.forall_mem_nil _⟩
  refine ⟨_, ?_, holds_of_lists hr h.owned (Function.update_self ..) (List.forall_mem_nil _)
    (List.Subset.refl _), rfl⟩
  rw [ConfigMemory.create]
  simp only [ConfigMemory.dup]
  rw [hrun]
  rfl

/-! ### Additions -/

omit [DecidableEq α] in
theorem Holds.ne_conf (h : Holds outside conf file path linked secs m) {s : SectionRecord α}
    (hs : s ∈ secs) : s.addr ≠ conf := by
  obtain ⟨q, hq, -, -⟩ := h.owns
  have hnodup := hq.owned.nodup
  rw [List.cons_append, List.map_cons, List.nodup_cons, List.map_append, List.mem_append,
    not_or] at hnodup
  rintro rfl
  refine hnodup.1.1 (List.mem_map.2 ⟨(s.addr, .section s.name.1), ?_, rfl⟩)
  exact List.mem_flatMap.2 ⟨s, hs, List.mem_cons_self⟩

omit [DecidableEq α] in
theorem Holds.nodup_addr (h : Holds outside conf file path linked secs m) :
    (secs.map SectionRecord.addr).Nodup := by
  obtain ⟨q, hq, -, -⟩ := h.owns
  have hnodup := hq.owned.nodup
  rw [List.cons_append, List.map_cons, List.nodup_cons, List.map_append] at hnodup
  have hrecs := (List.nodup_append.1 hnodup.2).1
  rw [List.map_flatMap, List.nodup_flatMap] at hrecs
  rw [List.Nodup, List.pairwise_map]
  refine hrecs.2.imp fun {s s'} hdisj he => ?_
  exact hdisj (a := s.addr) List.mem_cons_self (he ▸ List.mem_cons_self)

theorem Holds.sectionAdd (h : Holds outside conf file path secs secs m) {new : α}
    {name : α × List UInt8} (hnew : m.block new = none) (hname : m.block name.1 = none)
    (hne : name.1 ≠ new) : ∃ m', m.sectionAdd conf new name = .ok m' ∧
      Holds outside conf file path (secs ++ [⟨new, name, []⟩]) (secs ++ [⟨new, name, []⟩]) m' ∧
        m'.block = ((m.alloc new (.section name.1)).dup (some name)).block := by
  obtain ⟨q, hq, hconf, hsecs⟩ := h.owns
  have hnot := hq.not_mem_of_free hnew
  have hcell : ∀ l xs, q l = some xs → ∀ c ∈ l :: xs, c.base ≠ new :=
    fun l xs hl c hc he => hnot (he ▸ hq.bases l xs hl c hc)
  have howns := (hq.allocRec hnew (.section name.1)).allocText
    ((block_alloc_of_ne hne _).trans hname) (.text name.2)
  obtain ⟨links₁, hrun₁, hr₁⟩ := hq.links.listInit (l := .list new)
    (hq.unlisted (by exact hnot))
  have hconfnew : (ConfigCell.list conf : ConfigCell α) ≠ .list new :=
    fun he => hcell _ _ hconf _ List.mem_cons_self (ConfigCell.list.inj he)
  obtain ⟨links₂, hrun₂, hr₂⟩ := hr₁.listAdd (l := .list conf) (n := .node new)
    ((Function.update_of_ne hconfnew _ _).trans hconf)
    (hr₁.unlisted_iff.2 (Represents.forall_update (by simp)
      fun l xs _ hl hmem => hcell l xs hl _ hmem rfl))
  refine ⟨_, ?_, holds_of_lists (hr₂.congr_heads ?_) (howns.owned.perm (.append ?_ ?_)) ?_
    (fun s hs => ?_) (List.Subset.refl _), rfl⟩
  · rw [ConfigMemory.sectionAdd]
    simp only [ConfigMemory.dup, ConfigMemory.alloc, hrun₁, bind, Except.bind]
    rw [hrun₂]
    rfl
  · simp [SectionRecord.list, or_left_comm, or_comm]
  · rw [List.flatMap_append, ← List.cons_append]
    exact (List.perm_append_singleton _ _).symm
  · rw [List.flatMap_append, ← List.cons_append]
    exact (List.perm_append_singleton _ _).symm
  · rw [Function.update_self, List.map_append]
    rfl
  · rcases List.mem_append.1 hs with hs | hs
    · have hsnew : s.list ≠ .list new := fun he =>
        hcell _ _ (hsecs s hs) _ List.mem_cons_self (ConfigCell.list.inj he)
      have hsconf : s.list ≠ .list conf := fun he => h.ne_conf hs (ConfigCell.list.inj he)
      rw [Function.update_of_ne hsconf, Function.update_of_ne hsnew, hsecs s hs]
    · obtain rfl := List.mem_singleton.1 hs
      exact (Function.update_of_ne hconfnew.symm _ _).trans (Function.update_self ..)

omit [DecidableEq α] in
/-- The last record of the list is the last section. -/
theorem Holds.lastSection {pre : List (SectionRecord α)} {s : SectionRecord α}
    (h : Holds outside conf file path (pre ++ [s]) secs m) :
    m.lastSection conf = .ok s.addr := by
  obtain ⟨q, hq, hconf, -⟩ := h.owns
  have hprev := (hq.links.circle _ _ hconf).reverse.next_eq
  rw [ConfigMemory.lastSection, hprev, List.map_append, List.map_singleton, List.reverse_append,
    List.reverse_singleton, List.singleton_append]
  rfl

theorem Holds.entryAdd {pre : List (SectionRecord α)} {s : SectionRecord α}
    (h : Holds outside conf file path (pre ++ [s]) (pre ++ [s]) m) {e : EntryRecord α}
    (hnew : m.block e.addr = none) (hkey : ∀ k ∈ e.key, m.block k.1 = none ∧ k.1 ≠ e.addr)
    (hval : ∀ v ∈ e.val, m.block v.1 = none ∧ v.1 ≠ e.addr ∧ ∀ k ∈ e.key, v.1 ≠ k.1) :
    ∃ m', m.entryAdd conf e.addr e.key e.val = .ok m' ∧
      Holds outside conf file path (pre ++ [s.add e]) (pre ++ [s.add e]) m' ∧
        m'.block = (((m.alloc e.addr (.entry (e.key.map Prod.fst) (e.val.map Prod.fst))).dup
          e.key).dup e.val).block := by
  have hlast := h.lastSection
  have hne := h.ne_conf (List.mem_append_right pre (List.mem_singleton_self s))
  have hpre : ∀ s' ∈ pre, s'.addr ≠ s.addr := by
    have hnodup := h.nodup_addr
    rw [List.map_append, List.nodup_append] at hnodup
    exact fun s' hs' => hnodup.2.2 _ (List.mem_map_of_mem hs') _ List.mem_cons_self
  obtain ⟨q, hq, hconf, hsecs⟩ := h.owns
  have hs : s ∈ pre ++ [s] := List.mem_append_right pre List.mem_cons_self
  have hnot := hq.not_mem_of_free hnew
  have howns := ((hq.allocRec hnew (.entry (e.key.map Prod.fst) (e.val.map Prod.fst))).dup
    (t := e.key) fun k hk => (block_alloc_of_ne (hkey k hk).2 _).trans (hkey k hk).1).dup
      (t := e.val) fun v hv => (block_dup_of_ne fun k hk => (hval v hv).2.2 k hk).trans
        ((block_alloc_of_ne (hval v hv).2.1 _).trans (hval v hv).1)
  obtain ⟨links, hrun, hr⟩ := hq.links.listAdd (l := s.list) (n := .node e.addr) (hsecs s hs)
    (hq.unlisted (by exact hnot))
  have hsconf : s.list ≠ .list conf := fun he => hne (ConfigCell.list.inj he)
  refine ⟨_, ?_, holds_of_lists (hr.congr_heads ?_) (howns.owned.perm (.append ?_ ?_)) ?_
    (fun s' hs' => ?_) (List.Subset.refl _), rfl⟩
  · rw [ConfigMemory.entryAdd, hlast]
    simp only [bind, Except.bind, links_dup]
    rw [show listAdd (.node e.addr) (.list s.addr) (m.alloc e.addr _).links = .ok links from hrun]
    rfl
  · simp [SectionRecord.list, SectionRecord.add]
  · rw [SectionRecord.records_add, ← List.cons_append]
    exact (List.perm_append_singleton _ _).symm
  · rw [SectionRecord.texts_add, ← List.cons_append, ← List.append_assoc]
    exact List.perm_append_comm.trans (List.perm_append_comm.append_left _)
  · rw [Function.update_of_ne hsconf.symm, hconf]
    simp [SectionRecord.add, SectionRecord.node]
  · rcases List.mem_append.1 hs' with hs' | hs'
    · have hss' : s'.list ≠ s.list := fun he => hpre s' hs' (ConfigCell.list.inj he)
      rw [Function.update_of_ne hss', hsecs s' (List.mem_append_left _ hs')]
    · obtain rfl := List.mem_singleton.1 hs'
      exact (Function.update_self ..).trans (by simp [SectionRecord.cells, SectionRecord.add])

/-! ### Freeing -/

omit [DecidableEq α] in
/-- A loop whose body removes the record it is at visits them all. -/
theorem configTurns_all [DecidableEq α] {β : Type*} {head c : ConfigCell α}
    {body : ConfigCell α → ConfigMemory α → Option (Except Fault (ConfigMemory α))}
    (cell : β → ConfigCell α) (Inv : List β → ConfigMemory α → Prop) {xs : List β} {fuel : ℕ}
    (hcircle : ∀ xs m, Inv xs m → IsCircle m.links.next m.links.prev head (xs.map cell))
    (hbody : ∀ x xs m, Inv (x :: xs) m → ∃ m', body (cell x) m = some (.ok m') ∧ Inv xs m')
    (h : Inv xs m) (hc : m.links.next head = some c) (hfuel : xs.length < fuel) :
    ∃ m', configTurns body head fuel c (m.links.next c) m = some (.ok m') ∧ Inv [] m' := by
  induction xs generalizing m c fuel with
  | nil =>
    obtain ⟨fuel, rfl⟩ := Nat.exists_eq_succ_of_ne_zero (Nat.ne_of_gt hfuel)
    rw [(hcircle [] m h).next_eq] at hc
    obtain rfl : head = c := Option.some.inj hc
    exact ⟨m, by rw [configTurns, if_pos rfl], h⟩
  | cons x xs ih =>
    obtain ⟨fuel, rfl⟩ := Nat.exists_eq_succ_of_ne_zero (Nat.ne_zero_of_lt hfuel)
    have hx := hcircle _ _ h
    rw [hx.next_eq] at hc
    obtain rfl : cell x = c := Option.some.inj hc
    have hne : cell x ≠ head := ne_of_mem_of_not_mem List.mem_cons_self hx.not_mem
    obtain ⟨m₁, hrun₁, h₁⟩ := hbody x xs m h
    have hx₁ := hcircle _ _ h₁
    -- the saved link is the one the head has after the removal
    have hsaved : m.links.next (cell x) = m₁.links.next head := by
      rw [hx₁.next_eq]
      exact hx.next_middle []
    obtain ⟨d, -, hd⟩ := hx₁.exists_next List.mem_cons_self
    obtain ⟨m', hrun, h'⟩ := ih h₁ hd.1 (Nat.lt_of_succ_lt_succ hfuel)
    refine ⟨m', ?_, h'⟩
    rw [configTurns, if_neg hne, hrun₁]
    simp only [hsaved, hd.1]
    exact hrun

theorem configForeach_all {β : Type*} {head : ConfigCell α}
    {body : ConfigCell α → ConfigMemory α → Option (Except Fault (ConfigMemory α))}
    (cell : β → ConfigCell α) (Inv : List β → ConfigMemory α → Prop) {xs : List β} {fuel : ℕ}
    (hcircle : ∀ xs m, Inv xs m → IsCircle m.links.next m.links.prev head (xs.map cell))
    (hbody : ∀ x xs m, Inv (x :: xs) m → ∃ m', body (cell x) m = some (.ok m') ∧ Inv xs m')
    (h : Inv xs m) (hfuel : xs.length < fuel) :
    ∃ m', configForeach body head fuel m = some (.ok m') ∧ Inv [] m' := by
  obtain ⟨c, -, hc⟩ := (hcircle xs m h).exists_next List.mem_cons_self
  obtain ⟨m', hrun, h'⟩ := configTurns_all cell Inv hcircle hbody h hc.1 hfuel
  refine ⟨m', ?_, h'⟩
  rw [configForeach]
  simp only [hc.1]
  exact hrun

variable {s : SectionRecord α} {rest : List (SectionRecord α)}
  (junk : ConfigCell α → ListLinks (ConfigCell α))

theorem Holds.unlink (h : Holds outside conf file path (s :: rest) (s :: rest) m) :
    ∃ links, listDel s.node m.links = .ok links ∧
      Holds outside conf file path rest (s :: rest) { m with links := links } := by
  have hne : ∀ s' ∈ s :: rest, s'.list ≠ .list conf := fun s' hs' he =>
    h.ne_conf hs' (ConfigCell.list.inj he)
  obtain ⟨q, hq, hconf, hsecs⟩ := h.owns
  obtain ⟨links, hrun, hr⟩ := hq.links.listDel_head hconf
  refine ⟨links, hrun, holds_of_lists hr hq.owned (Function.update_self ..) (fun s' hs' => ?_)
    (List.subset_cons_self _ _)⟩
  rw [Function.update_of_ne (hne s' hs'), hsecs s' hs']

theorem Holds.freeEntry {a : α} {name : α × List UInt8} {e : EntryRecord α}
    {es : List (EntryRecord α)}
    (h : Holds outside conf file path rest (⟨a, name, e :: es⟩ :: rest) m) :
    ∃ m', freeEntry junk (.node e.addr) m = .ok m' ∧
      Holds outside conf file path rest (⟨a, name, es⟩ :: rest) m' := by
  have hne := h.ne_conf List.mem_cons_self
  have hnodup := (List.nodup_cons.1 h.nodup_addr).1
  obtain ⟨q, hq, hconf, hsecs⟩ := h.owns
  obtain ⟨links, hrun, hr⟩ := hq.links.listDel_head (hsecs _ List.mem_cons_self)
  have hconf₁ : Function.update q (.list a) (some (es.map fun e => .node e.addr)) (.list conf) =
      some (rest.map SectionRecord.node) :=
    (Function.update_of_ne (fun he => hne (ConfigCell.list.inj he).symm) _ _).trans hconf
  have hsecs₁ : ∀ s ∈ (⟨a, name, es⟩ :: rest : List (SectionRecord α)),
      Function.update q (.list a) (some (es.map fun e => .node e.addr)) s.list =
        some s.cells := by
    intro s hs
    rcases List.mem_cons.1 hs with rfl | hs
    · exact Function.update_self ..
    · have hsa : s.list ≠ .list a := fun he =>
        hnodup (List.mem_map.2 ⟨s, hs, ConfigCell.list.inj he⟩)
      rw [Function.update_of_ne hsa, hsecs s (List.mem_cons_of_mem _ hs)]
  have hbases := base_mem file (⟨a, name, es⟩ :: rest) hr hconf₁ hsecs₁ (List.subset_cons_self _ _)
  have howned : Owned outside ((e.record :: (conf, .conf file) ::
      (⟨a, name, es⟩ :: rest : List (SectionRecord α)).flatMap SectionRecord.records) ++
        (e.key.toList.map textBlock ++ (e.val.toList.map textBlock ++ textBlock (file, path) ::
          (⟨a, name, es⟩ :: rest : List (SectionRecord α)).flatMap SectionRecord.texts)))
      m.block := by
    refine hq.owned.perm (.append ?_ ?_)
    · exact SectionRecord.records_cons ..
    · exact SectionRecord.texts_cons ..
  have h₁ : Owns outside _ _ _ _ { m with links := links } :=
    ⟨hr, howned, fun l xs hl c hc => List.mem_cons_of_mem _ (hbases l xs hl c hc)⟩
  obtain ⟨m₂, hkey, h₂⟩ := h₁.freePtr junk
  obtain ⟨m₃, hval, h₃⟩ := h₂.freePtr junk
  obtain ⟨m', hfree, h'⟩ := h₃.freeRec junk hbases
  refine ⟨m', ?_, ⟨_, h', hconf₁, hsecs₁⟩⟩
  have hblock : m.block e.addr = some (.entry (e.key.map Prod.fst) (e.val.map Prod.fst)) :=
    hq.block_eq (List.mem_cons_of_mem _ (List.mem_flatMap.2
      ⟨_, List.mem_cons_self, List.mem_cons_of_mem _ List.mem_cons_self⟩))
  rw [ConfigMemory.freeEntry, hrun]
  simp only [bind, Except.bind, hblock, hkey, hval]
  exact hfree

theorem Holds.freeEntries {a : α} {name : α × List UInt8} {es : List (EntryRecord α)} {fuel : ℕ}
    (h : Holds outside conf file path rest (⟨a, name, es⟩ :: rest) m) (hfuel : es.length < fuel) :
    ∃ m', freeEntries junk fuel a m = some (.ok m') ∧
      Holds outside conf file path rest (⟨a, name, []⟩ :: rest) m' := by
  refine configForeach_all (fun e => .node e.addr)
    (fun es m => Holds outside conf file path rest (⟨a, name, es⟩ :: rest) m)
    (fun es m h => ?_) (fun e es m h => ?_) h hfuel
  · obtain ⟨q, hq, -, hsecs⟩ := h.owns
    exact hq.links.circle _ _ (hsecs _ List.mem_cons_self)
  · obtain ⟨m', hrun, h'⟩ := h.freeEntry junk
    exact ⟨m', congrArg some hrun, h'⟩

theorem Holds.freeSection {a : α} {name : α × List UInt8}
    (h : Holds outside conf file path rest (⟨a, name, []⟩ :: rest) m) :
    ∃ m', freeSection junk a m = .ok m' ∧ Holds outside conf file path rest rest m' := by
  have hne := h.ne_conf List.mem_cons_self
  have hnodup := List.nodup_cons.1 h.nodup_addr
  obtain ⟨q, hq, hconf, hsecs⟩ := h.owns
  have hblock := hq.block_eq (List.mem_cons_of_mem _ List.mem_cons_self)
  obtain ⟨m₁, hname, h₁⟩ := (hq.perm (.swap ..) (.swap ..)).freeText junk
  have hr : Represents m₁.links (.list conf :: rest.map SectionRecord.list)
      (Function.update q (.list a) none) := by
    refine h₁.links.forget fun c => ⟨fun hc => ?_, fun hc => ?_⟩
    · rcases List.mem_cons.1 hc with rfl | hc
      · exact ⟨List.mem_cons_self, fun he => hne (ConfigCell.list.inj he).symm⟩
      · obtain ⟨s, hs, rfl⟩ := List.mem_map.1 hc
        exact ⟨List.mem_cons_of_mem _ (List.mem_cons_of_mem _ hc), fun he =>
          hnodup.1 (List.mem_map.2 ⟨s, hs, ConfigCell.list.inj he⟩)⟩
    · rcases List.mem_cons.1 hc.1 with rfl | hmem
      · exact List.mem_cons_self
      · exact List.mem_cons_of_mem _ ((List.mem_cons.1 hmem).resolve_left hc.2)
  have hconf₁ : Function.update q (.list a) none (.list conf) =
      some (rest.map SectionRecord.node) :=
    (Function.update_of_ne (fun he => hne (ConfigCell.list.inj he).symm) _ _).trans hconf
  have hsecs₁ : ∀ s ∈ rest, Function.update q (.list a) none s.list = some s.cells :=
    fun s hs => (Function.update_of_ne (fun he => hnodup.1 (List.mem_map.2
      ⟨s, hs, ConfigCell.list.inj he⟩)) _ _).trans (hsecs s (List.mem_cons_of_mem _ hs))
  have hbases := base_mem file rest hr hconf₁ hsecs₁ (List.Subset.refl _)
  have h₂ : Owns outside _ _ _ _ m₁ :=
    ⟨hr, h₁.owned, fun l xs hl c hc => List.mem_cons_of_mem _ (hbases l xs hl c hc)⟩
  obtain ⟨m', hfree, h'⟩ := h₂.freeRec junk hbases
  refine ⟨m', ?_, ⟨_, h', hconf₁, hsecs₁⟩⟩
  rw [ConfigMemory.freeSection, hblock]
  simp only [bind, Except.bind, hname]
  exact hfree

theorem Holds.freeSectionTurn {fuel : ℕ}
    (h : Holds outside conf file path (s :: rest) (s :: rest) m)
    (hfuel : s.entries.length < fuel) : ∃ m', freeSectionTurn junk fuel s.node m = some (.ok m') ∧
      Holds outside conf file path rest rest m' := by
  obtain ⟨links, hdel, h₁⟩ := h.unlink
  obtain ⟨m₂, hentries, h₂⟩ := h₁.freeEntries junk hfuel
  obtain ⟨m', hrun, h'⟩ := h₂.freeSection junk
  refine ⟨m', ?_, h'⟩
  simp only [SectionRecord.node] at hdel ⊢
  rw [ConfigMemory.freeSectionTurn]
  simp only [hdel, hentries, hrun]

/-- Freeing a configuration leaves what was there before it. -/
theorem Holds.configFree {fuel : ℕ} (h : Holds outside conf file path secs secs m)
    (hsecs : secs.length < fuel) (hentries : ∀ s ∈ secs, s.entries.length < fuel) :
    ∃ m', configFree junk fuel conf m = some (.ok m') ∧ m'.block = outside := by
  obtain ⟨m₁, hrun, h₁⟩ : ∃ m₁, configForeach (ConfigMemory.freeSectionTurn junk fuel)
      (.list conf) fuel m = some (.ok m₁) ∧ Holds outside conf file path [] [] m₁ ∧ _ := by
    refine configForeach_all SectionRecord.node (fun secs m =>
      Holds outside conf file path secs secs m ∧ ∀ s ∈ secs, s.entries.length < fuel)
      (fun secs m h => ?_) (fun s rest m h => ?_) ⟨h, hentries⟩ hsecs
    · obtain ⟨q, hq, hconf, -⟩ := h.1.owns
      exact hq.links.circle _ _ hconf
    · obtain ⟨m', hrun, h'⟩ := h.1.freeSectionTurn junk (h.2 s List.mem_cons_self)
      exact ⟨m', hrun, h', fun s' hs' => h.2 s' (List.mem_cons_of_mem _ hs')⟩
  obtain ⟨q, hq, hconf, -⟩ := h₁.1.owns
  have hblock := hq.block_eq List.mem_cons_self
  obtain ⟨m₂, hfile, h₂⟩ := hq.freeText junk
  -- no list is left
  have hr : Represents m₂.links [] (Function.update q (.list conf) none) := by
    refine h₂.links.forget fun c => ?_
    simp
  have hbases : ∀ l xs, Function.update q (.list conf) none l = some xs → ∀ c ∈ l :: xs,
      c.base ∈ ([] : List (α × ConfigBlock α)).map Prod.fst :=
    fun l xs hl => absurd (hr.mem_heads hl) List.not_mem_nil
  have h₃ : Owns outside _ _ _ _ m₂ :=
    ⟨hr, h₂.owned, fun l xs hl c hc => List.mem_cons_of_mem _ (hbases l xs hl c hc)⟩
  obtain ⟨m', hfree, h'⟩ := h₃.freeRec junk hbases
  refine ⟨m', ?_, h'.owned.eq_of_nil⟩
  rw [ConfigMemory.configFree, hrun]
  simp only [hblock, hfile, bind, Except.bind]
  rw [hfree]

/-! ### Runs -/

theorem Holds.step {r r' : Reader} {call : ConfigCall α}
    (h : Holds outside conf file path secs secs m)
    (hr : secs.map SectionRecord.section = r.sections) (hread : call.read r = .ok r')
    (hnodup : call.addrs.Nodup) (hfree : ∀ a ∈ call.addrs, m.block a = none) :
    ∃ m' secs', m.step conf call = .ok m' ∧ Holds outside conf file path secs' secs' m' ∧
      secs'.map SectionRecord.section = r'.sections ∧
        ∀ a ∉ call.addrs, m'.block a = m.block a := by
  cases call with
  | «section» addr name =>
    obtain rfl := Except.ok.inj hread
    have hne : name.1 ≠ addr := fun he => by simp [ConfigCall.addrs, he] at hnodup
    obtain ⟨m', hrun, h', hblock⟩ := h.sectionAdd (hfree addr (by simp [ConfigCall.addrs]))
      (hfree name.1 (by simp [ConfigCall.addrs])) hne
    refine ⟨m', _, hrun, h', ?_, fun a ha => ?_⟩
    · rw [List.map_append, hr]
      rfl
    · simp only [ConfigCall.addrs, List.mem_cons, not_or] at ha
      rw [hblock, block_dup_of_ne, block_alloc_of_ne ha.1]
      exact fun s hs => Option.some.inj hs ▸ ha.2.1
  | entry addr key val =>
    rcases List.eq_nil_or_concat' secs with rfl | ⟨pre, s, rfl⟩
    · rw [ConfigCall.read, Reader.entryAdd, ← hr] at hread
      cases hread
    · rw [ConfigCall.read, Reader.entryAdd, ← hr, List.map_append, List.map_singleton,
        List.getLast?_concat, List.dropLast_concat] at hread
      obtain rfl := Except.ok.inj hread
      rw [ConfigCall.addrs, List.nodup_cons, List.mem_append, not_or, List.nodup_append] at hnodup
      simp only [ConfigCall.addrs, List.mem_cons, List.mem_append, List.mem_map,
        Option.mem_toList] at hfree hnodup ⊢
      obtain ⟨m', hrun, h', hblock⟩ := h.entryAdd (e := ⟨addr, key, val⟩) (hfree addr (.inl rfl))
        (fun k hk => ⟨hfree k.1 (.inr (.inl ⟨k, hk, rfl⟩)), fun he => hnodup.1.1 ⟨k, hk, he⟩⟩)
        (fun v hv => ⟨hfree v.1 (.inr (.inr ⟨v, hv, rfl⟩)), fun he => hnodup.1.2 ⟨v, hv, he⟩,
          fun k hk he => hnodup.2.2.2 k.1 ⟨k, hk, rfl⟩ v.1 ⟨v, hv, rfl⟩ he.symm⟩)
      refine ⟨m', _, hrun, h', ?_, fun a ha => ?_⟩
      · simp [SectionRecord.add, SectionRecord.section, EntryRecord.entry]
      · rw [not_or, not_or] at ha
        rw [hblock, block_dup_of_ne fun v hv he => ha.2.2 ⟨v, hv, he.symm⟩,
          block_dup_of_ne fun k hk he => ha.2.1 ⟨k, hk, he.symm⟩, block_alloc_of_ne ha.1]

theorem Holds.run {calls : List (ConfigCall α)} {r r' : Reader}
    (h : Holds outside conf file path secs secs m)
    (hr : secs.map SectionRecord.section = r.sections)
    (hread : calls.foldlM ConfigCall.read r = .ok r')
    (hnodup : (calls.flatMap ConfigCall.addrs).Nodup)
    (hfree : ∀ a ∈ calls.flatMap ConfigCall.addrs, m.block a = none) :
    ∃ m' secs', calls.foldlM (ConfigMemory.step conf) m = .ok m' ∧
      Holds outside conf file path secs' secs' m' ∧
        secs'.map SectionRecord.section = r'.sections := by
  induction calls generalizing m secs r with
  | nil =>
    obtain rfl := Except.ok.inj hread
    exact ⟨m, secs, rfl, h, hr⟩
  | cons call calls ih =>
    rw [List.flatMap_cons, List.nodup_append] at hnodup
    obtain ⟨r₁, hread₁, hread⟩ := bind_eq_ok.1 (List.foldlM_cons.symm.trans hread)
    obtain ⟨m₁, secs₁, hrun₁, h₁, hr₁, hframe⟩ := h.step hr hread₁ hnodup.1 fun a ha =>
      hfree a (List.mem_append_left _ ha)
    obtain ⟨m', secs', hrun, h', hr'⟩ := ih h₁ hr₁ hread hnodup.2.1 fun a ha =>
      (hframe a fun hmem => hnodup.2.2 a hmem a ha rfl).trans
        (hfree a (List.mem_append_right _ ha))
    refine ⟨m', secs', ?_, h', hr'⟩
    rw [List.foldlM_cons, hrun₁]
    exact hrun

end ConfigMemory

/-- `xlab_config_create`, and the calls that add what it reads. -/
def ConfigMemory.build [DecidableEq α] (conf file : α) (path : List UInt8)
    (calls : List (ConfigCall α)) (m : ConfigMemory α) : Except Fault (ConfigMemory α) := do
  let m ← m.create conf file path
  calls.foldlM (ConfigMemory.step conf) m

/-- Any additions that the sections allow leave them in memory, wherever the blocks are, and freeing
them leaves what was there before. -/
theorem configMemory_freed [DecidableEq α] (conf file : α) (path : List UInt8)
    (calls : List (ConfigCall α)) (m : ConfigMemory α) {r r' : Reader} (hr : r.sections = [])
    (hread : calls.foldlM ConfigCall.read r = .ok r')
    (hnodup : (conf :: file :: calls.flatMap ConfigCall.addrs).Nodup)
    (hfree : ∀ a ∈ conf :: file :: calls.flatMap ConfigCall.addrs, m.block a = none)
    (junk : ConfigCell α → ListLinks (ConfigCell α)) :
    ∃ m', m.build conf file path calls = .ok m' ∧
      (∃ secs, m'.Holds m.block conf file path secs secs ∧
        secs.map SectionRecord.section = r'.sections) ∧
      ∀ fuel, r'.sections.length < fuel → (∀ s ∈ r'.sections, s.entries.length < fuel) →
        ∃ m'', m'.configFree junk fuel conf = some (.ok m'') ∧ m''.block = m.block := by
  rw [List.nodup_cons, List.nodup_cons, List.mem_cons, not_or] at hnodup
  obtain ⟨m₁, hcreate, h₁, hblock⟩ := ConfigMemory.Holds.create (hfree conf (by simp))
    (hfree file (by simp)) (Ne.symm hnodup.1.1) path
  obtain ⟨m', secs, hrun, h', hsecs⟩ := h₁.run (r := r) hr.symm hread hnodup.2.2 fun a ha => by
    have haconf : a ≠ conf := ne_of_mem_of_not_mem ha hnodup.1.2
    have hafile : a ≠ file := ne_of_mem_of_not_mem ha hnodup.2.1
    rw [hblock, ConfigMemory.block_dup_of_ne fun s hs => Option.some.inj hs ▸ hafile,
      ConfigMemory.block_alloc_of_ne haconf]
    exact hfree a (List.mem_cons_of_mem _ (List.mem_cons_of_mem _ ha))
  refine ⟨m', ?_, ⟨secs, h', hsecs⟩, fun fuel hlen hentries => h'.configFree junk ?_ ?_⟩
  · rw [ConfigMemory.build, hcreate]
    exact hrun
  · rw [← hsecs, List.length_map] at hlen
    exact hlen
  · intro s hs
    have hs' := hentries s.section (hsecs ▸ List.mem_map_of_mem hs)
    simpa [SectionRecord.section] using hs'

/-- A section with an entry that has no value, and a section after it. -/
theorem configMemory_freed_twoSections : ∃ m' m'' : ConfigMemory ℕ,
    ConfigMemory.build 0 1 [0x66] [.section 2 (3, [0x61]), .entry 4 (some (5, [0x6B])) none,
      .section 6 (7, [0x62])] ⟨fun _ => ⟨none, none⟩, fun _ => none⟩ = .ok m' ∧
    (∃ secs, m'.Holds (fun _ => none) 0 1 [0x66] secs secs ∧
      secs.map SectionRecord.section = [⟨[0x61], [⟨some [0x6B], none⟩]⟩, ⟨[0x62], []⟩]) ∧
    m'.configFree (fun _ => ⟨none, none⟩) 3 0 = some (.ok m'') ∧ m''.block = fun _ => none := by
  obtain ⟨m', hbuild, hholds, hfree⟩ := configMemory_freed 0 1 [0x66]
    [.section 2 (3, [0x61]), .entry 4 (some (5, [0x6B])) none, .section 6 (7, [0x62])]
    ⟨fun _ => ⟨none, none⟩, fun _ => none⟩ (r := .start (.replicate 255 0)) rfl rfl (by decide)
    (fun _ _ => rfl) fun _ => ⟨none, none⟩
  obtain ⟨m'', hrun, hblock⟩ := hfree 3 (by decide) (by decide)
  exact ⟨m', m'', hbuild, hholds, hrun, hblock⟩

end Xlab
