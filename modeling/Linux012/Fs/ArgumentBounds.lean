import Linux012.Fs.ArgumentPages

/-! Which arguments the calls of `copy_strings` keep within their pages. -/

set_option autoImplicit false

namespace Linux012.Fs.ArgumentPages

open List

open ByteMemory (terminated)
open Exec (CString Inode Current Script PAGE_SIZE MAX_ARG_PAGES ENOENT ENOEXEC ENOMEM EACCES mayExecute isExecutable
  isScript parseScript count)

def capacity : Nat := PAGE_SIZE * MAX_ARG_PAGES - 4

def pagesFor (n : Nat) : Nat := if n = 0 then 0 else (n + 4 + (PAGE_SIZE - 1)) / PAGE_SIZE

theorem capacity_eq : capacity = 131068 := rfl

theorem pageSize_eq : PAGE_SIZE = 4096 := rfl

theorem maxArgPages_eq : MAX_ARG_PAGES = 32 := rfl

theorem pagesFor_zero : pagesFor 0 = 0 := rfl

theorem pagesFor_succ (n : Nat) : pagesFor (n + 1) = (n + 4100) / 4096 := by
  rw [pagesFor, if_neg n.succ_ne_zero, pageSize_eq]

theorem pagesFor_le_succ (n : Nat) : pagesFor n ≤ pagesFor (n + 1) := by
  cases n with
  | zero => exact Nat.zero_le _
  | succ n =>
    rw [pagesFor_succ, pagesFor_succ]
    omega

theorem pagesFor_succ_le (n : Nat) : pagesFor (n + 1) ≤ pagesFor n + 1 := by
  cases n with
  | zero => decide
  | succ n =>
    rw [pagesFor_succ, pagesFor_succ]
    omega

/-! ## What the pages hold -/

/-- From `p` on there are these bytes, each stored where its `p` says. -/
def Recorded (page : List (Option Nat)) : Nat → List Store → List UInt8 → Prop
  | _, [], [] => True
  | p, store :: stores, byte :: bytes =>
    (store.p.toNat = p ∧ store.byte = byte ∧ page[p / PAGE_SIZE]? = some (some store.pag) ∧
        store.offset = (p % PAGE_SIZE : Nat)) ∧
      Recorded page (p + 1) stores bytes
  | _, _, _ => False

variable {bytes : List UInt8}

theorem Recorded.allocate {page : List (Option Nat)} {p i : Nat} {stores : List Store}
    (recorded : Recorded page p stores bytes) (absent : page[i]? = some none) (pag : Nat) :
    Recorded (page.set i (some pag)) p stores bytes := by
  induction stores generalizing p bytes with
  | nil =>
    cases bytes with
    | nil => trivial
    | cons byte bytes => exact recorded
  | cons store stores ih =>
    cases bytes with
    | nil => exact recorded
    | cons byte bytes =>
      obtain ⟨⟨place, isByte, found, offset⟩, behind⟩ := recorded
      have differ : i ≠ p / PAGE_SIZE := by
        rintro rfl
        cases absent.symm.trans found
      exact ⟨⟨place, isByte, (getElem?_set_ne differ).trans found, offset⟩, ih behind⟩

def Frames (page : List (Option Nat)) (free init : List Nat) (k : Nat) : Prop :=
  ∃ frames : List Nat, page = List.replicate (MAX_ARG_PAGES - k) none ++ frames.map some ∧
    init = frames.reverse ++ free ∧ frames.length = k ∧ k ≤ MAX_ARG_PAGES

section Frames

variable {page : List (Option Nat)} {free init : List Nat} {k i : Nat}

theorem Frames.length_page (frames : Frames page free init k) : page.length = MAX_ARG_PAGES := by
  obtain ⟨list, rfl, -, length, small⟩ := frames
  rw [length_append, length_replicate, length_map, length]
  omega

theorem Frames.le_init (frames : Frames page free init k) : k ≤ init.length := by
  obtain ⟨list, -, rfl, length, -⟩ := frames
  rw [length_append, length_reverse, length]
  omega

theorem Frames.getElem?_low (frames : Frames page free init k) (low : i < MAX_ARG_PAGES - k) :
    page[i]? = some none := by
  obtain ⟨list, rfl, -⟩ := frames
  rw [getElem?_append_left (by rwa [length_replicate]), getElem?_replicate_of_lt low]

theorem Frames.getElem?_high (frames : Frames page free init k) (high : MAX_ARG_PAGES - k ≤ i) (inside : i < MAX_ARG_PAGES) :
    ∃ pag, page[i]? = some (some pag) := by
  obtain ⟨list, rfl, -, length, small⟩ := frames
  rw [getElem?_append_right (by rwa [length_replicate]), length_replicate, getElem?_map]
  have bound : i - (MAX_ARG_PAGES - k) < list.length := by omega
  exact ⟨list[i - (MAX_ARG_PAGES - k)], by rw [getElem?_eq_getElem bound]; rfl⟩

theorem Frames.allocate {pag : Nat} (frames : Frames page (pag :: free) init k) (low : i + 1 = MAX_ARG_PAGES - k) :
    Frames (page.set i (some pag)) free init (k + 1) := by
  obtain ⟨list, rfl, rfl, length, small⟩ := frames
  refine ⟨pag :: list, ?_, ?_, by rw [length_cons, length], by omega⟩
  · have rest : MAX_ARG_PAGES - (k + 1) = i := by omega
    rw [← low, rest, replicate_succ', append_assoc,
      set_append_right _ _ (by rw [length_replicate]), length_replicate, Nat.sub_self]
    rfl
  · rw [reverse_cons, append_assoc]
    rfl

theorem Frames.exhausted (frames : Frames page [] init k) : init.length = k := by
  obtain ⟨list, -, rfl, length, -⟩ := frames
  rw [append_nil, length_reverse, length]

end Frames

theorem freePages_perm (page : List (Option Nat)) (free : List Nat) :
    (freePages page free).Perm (page.filterMap id ++ free) := by
  induction page generalizing free with
  | nil => exact .refl _
  | cons entry page ih =>
    cases entry with
    | none => exact ih free
    | some pag => exact (ih (pag :: free)).trans perm_middle

variable {init : List Nat}

theorem Frames.freePages_perm {page : List (Option Nat)} {free : List Nat} {k : Nat}
    (frames : Frames page free init k) : (freePages page free).Perm init := by
  obtain ⟨list, rfl, rfl, -⟩ := frames
  refine (ArgumentPages.freePages_perm _ _).trans (List.Perm.append_right free ?_)
  rw [filterMap_append, filterMap_replicate_of_none rfl, nil_append, filterMap_map]
  have same : list.filterMap (id ∘ some) = list := filterMap_some
  rw [same]
  exact (reverse_perm list).symm

structure ArgPages.Held (a : ArgPages) (init : List Nat) (bytes : List UInt8) : Prop where
  frames : Frames a.page a.free init (pagesFor bytes.length)
  recorded : Recorded a.page (capacity - bytes.length) a.stores bytes

structure ArgPages.Filled (a : ArgPages) (init : List Nat) (bytes : List UInt8) : Prop extends a.Held init bytes where
  place : a.p.toNat + bytes.length = capacity

def Cursor.InStep (c : Cursor) : Prop :=
  c.offset = 0 ∨ c.offset = (c.p.toNat % PAGE_SIZE : Nat) ∧ c.page[c.p.toNat / PAGE_SIZE]? = some (some c.pag)

/-! ## One byte -/

/-- How the loops go on when these bytes are to be there afterwards. -/
inductive Puts (init : List Nat) (bytes : List UInt8) (fs oldFs : Segment) : Except Stop Cursor → Prop where
  | done {c : Cursor} :
      c.Filled init bytes → c.InStep → c.fs = fs → Puts init bytes fs oldFs (.ok c)
  | full {a : ArgPages} {stored : List UInt8} :
      stored <:+ bytes → a.Held init stored → a.fs = oldFs → init.length < MAX_ARG_PAGES →
      Puts init bytes fs oldFs (.error (.full a))
  | outside {index : UInt32} :
      capacity < bytes.length → MAX_ARG_PAGES ≤ init.length →
      Puts init bytes fs oldFs (.error (.fault (.outside index)))

theorem Puts.mono {bytes' : List UInt8} {fs oldFs : Segment} {stop : Stop}
    (puts : Puts init bytes fs oldFs (.error stop)) (more : bytes <:+ bytes') :
    Puts init bytes' fs oldFs (.error stop) := by
  cases puts with
  | full stored held back few => exact .full (stored.trans more) held back few
  | outside long enough => exact .outside (long.trans_le more.length_le) enough

theorem Puts.bind {bytes' : List UInt8} {fs oldFs : Segment} {x : Except Stop Cursor}
    {f : Cursor → Except Stop Cursor} (puts : Puts init bytes fs oldFs x) (more : bytes <:+ bytes')
    (next : ∀ c : Cursor, c.Filled init bytes → c.InStep → c.fs = fs → Puts init bytes' fs oldFs (f c)) :
    Puts init bytes' fs oldFs (x >>= f) := by
  cases puts with
  | done filled inStep segment => exact next _ filled inStep segment
  | full stored held back few => exact (Puts.full stored held back few).mono more
  | outside long enough => exact (Puts.outside long enough).mono more

section Cursor

variable {c : Cursor} {init : List Nat} {bytes : List UInt8}

theorem toNat_page_index (p : UInt32) : (p / UInt32.ofNat PAGE_SIZE).toNat = p.toNat / PAGE_SIZE := rfl

theorem Cursor.findPage_spec (held : c.Held init bytes) (place : c.p.toNat + (bytes.length + 1) = capacity) :
    (∃ c' : Cursor, c.findPage = .ok c' ∧ Frames c'.page c'.free init (pagesFor (bytes.length + 1)) ∧
        Recorded c'.page (capacity - bytes.length) c'.stores bytes ∧
        c'.page[c.p.toNat / PAGE_SIZE]? = some (some c'.pag) ∧ c'.p = c.p ∧ c'.offset = c.offset ∧ c'.fs = c.fs) ∨
      c.findPage = .error (.full c.toArgPages) ∧ init.length < MAX_ARG_PAGES := by
  have frames := held.frames
  have low : pagesFor bytes.length ≤ pagesFor (bytes.length + 1) := pagesFor_le_succ _
  have high : pagesFor (bytes.length + 1) ≤ pagesFor bytes.length + 1 := pagesFor_succ_le _
  have index : c.p.toNat / PAGE_SIZE + pagesFor (bytes.length + 1) = MAX_ARG_PAGES := by
    rw [pagesFor_succ, pageSize_eq, maxArgPages_eq]
    rw [capacity_eq] at place
    omega
  have positive : 0 < pagesFor (bytes.length + 1) := by
    rw [pagesFor_succ]
    omega
  unfold Cursor.findPage
  simp only [toNat_page_index]
  generalize c.p.toNat / PAGE_SIZE = i at index ⊢
  rcases Nat.lt_or_ge (pagesFor bytes.length) (pagesFor (bytes.length + 1)) with new | old
  · -- the first byte of a page
    have absent := frames.getElem?_low (i := i) (by omega)
    rw [absent]
    cases left : c.free with
    | nil =>
      rw [left] at frames
      exact .inr ⟨rfl, by rw [frames.exhausted]; omega⟩
    | cons pag free =>
      rw [left] at frames
      have count : pagesFor (bytes.length + 1) = pagesFor bytes.length + 1 := by omega
      refine .inl ⟨_, rfl, ?_, held.recorded.allocate absent pag, ?_, rfl, rfl, rfl⟩
      · rw [count]
        exact frames.allocate (by omega)
      · have bound : i < c.page.length := by
          rw [frames.length_page]
          omega
        exact getElem?_set_self bound
  · have same : pagesFor (bytes.length + 1) = pagesFor bytes.length := by omega
    obtain ⟨pag, found⟩ := frames.getElem?_high (i := i) (by omega) (by omega)
    rw [found]
    exact .inl ⟨_, rfl, same ▸ frames, held.recorded, found, rfl, rfl, rfl⟩

theorem Cursor.store_spec {contents fs oldFs : Segment} {byte : UInt8}
    (frames : Frames c.page c.free init (pagesFor (bytes.length + 1)))
    (recorded : Recorded c.page (capacity - bytes.length) c.stores bytes)
    (found : c.page[c.p.toNat / PAGE_SIZE]? = some (some c.pag)) (place : c.p.toNat + (bytes.length + 1) = capacity)
    (offset : c.offset = (c.p.toNat % PAGE_SIZE : Nat)) (segment : c.fs = fs) (right : contents = fs) :
    Puts init (byte :: bytes) fs oldFs (c.store contents byte) := by
  unfold Cursor.store
  rw [if_pos (segment.trans right.symm)]
  have here : capacity - (byte :: bytes).length = c.p.toNat := by
    rw [length_cons]
    omega
  have behind : capacity - bytes.length = c.p.toNat + 1 := by omega
  refine .done ⟨⟨frames, ?_⟩, place⟩ (.inr ⟨offset, found⟩) segment
  rw [here]
  exact ⟨⟨rfl, rfl, found, offset⟩, behind ▸ recorded⟩

def loopFs (fromKmem : Nat) (oldFs newFs : Segment) : Segment := if fromKmem = 2 then newFs else oldFs

section Loops

variable {fromKmem : Nat} {oldFs newFs contents : Segment}

def Cursor.turn (fromKmem : Nat) (oldFs : Segment) (c : Cursor) : Cursor :=
  let c := { c with p := c.p - 1, offset := (((c.p - 1) % UInt32.ofNat PAGE_SIZE).toNat : Int) }
  if fromKmem = 2 then c.setFs oldFs else c

theorem Cursor.putByte_turn (offset : c.offset = 0) (byte : UInt8) :
    c.putByte fromKmem oldFs newFs contents byte =
      (c.turn fromKmem oldFs).findPage >>= fun c =>
        (if fromKmem = 2 then c.setFs newFs else c).store contents byte := by
  unfold Cursor.putByte
  dsimp only
  rw [if_pos (by rw [offset]; decide)]
  rfl

theorem Cursor.putByte_stay (offset : 0 < c.offset) (byte : UInt8) :
    c.putByte fromKmem oldFs newFs contents byte =
      Cursor.store contents byte { c with p := c.p - 1, offset := c.offset - 1 } := by
  unfold Cursor.putByte
  exact if_neg (by dsimp only; omega)

theorem Cursor.turn_eq (fromKmem : Nat) (oldFs : Segment) (c : Cursor) :
    (c.turn fromKmem oldFs).page = c.page ∧ (c.turn fromKmem oldFs).free = c.free ∧
      (c.turn fromKmem oldFs).stores = c.stores ∧ (c.turn fromKmem oldFs).p = c.p - 1 ∧
      (c.turn fromKmem oldFs).offset = ((c.p - 1).toNat % PAGE_SIZE : Nat) := by
  unfold Cursor.turn
  split <;> exact ⟨rfl, rfl, rfl, rfl, rfl⟩

theorem Cursor.turn_fs (segment : c.fs = loopFs fromKmem oldFs newFs) : (c.turn fromKmem oldFs).fs = oldFs := by
  unfold Cursor.turn
  split
  next => rfl
  next other => exact segment.trans (if_neg other)

theorem toNat_pred {p : UInt32} (positive : 0 < p.toNat) : (p - 1).toNat = p.toNat - 1 :=
  UInt32.toNat_sub_of_le _ _ (UInt32.le_iff_toNat_le.mpr positive)

theorem Cursor.findPage_zero (frames : Frames c.page c.free init (pagesFor bytes.length)) (zero : c.p = 0) :
    (c.turn fromKmem oldFs).findPage = .error (.fault (.outside 0xfffff)) := by
  obtain ⟨page, -, -, place, -⟩ := c.turn_eq fromKmem oldFs
  have index : (c.turn fromKmem oldFs).p / UInt32.ofNat PAGE_SIZE = 0xfffff := by
    rw [place, zero]
    rfl
  have absent : (c.turn fromKmem oldFs).page[(0xfffff : UInt32).toNat]? = none := by
    rw [page, getElem?_eq_none_iff, frames.length_page, maxArgPages_eq]
    decide
  unfold Cursor.findPage
  simp only [index, absent]

theorem Cursor.putByte_puts (filled : c.Filled init bytes) (inStep : c.InStep)
    (segment : c.fs = loopFs fromKmem oldFs newFs) (right : contents = loopFs fromKmem oldFs newFs) (byte : UInt8) :
    Puts init (byte :: bytes) (loopFs fromKmem oldFs newFs) oldFs (c.putByte fromKmem oldFs newFs contents byte) := by
  have place := filled.place
  have frames := filled.frames
  by_cases zero : c.p = 0
  · have offset : c.offset = 0 := by
      rcases inStep with offset | ⟨offset, -⟩
      · exact offset
      · rw [offset, zero]
        rfl
    have length : bytes.length = capacity := by
      rw [zero] at place
      exact (Nat.zero_add _).symm.trans place
    rw [Cursor.putByte_turn offset, Cursor.findPage_zero frames zero]
    refine .outside (by rw [length_cons, length]; exact Nat.lt_succ_self _) ?_
    have all := frames.le_init
    rwa [length] at all
  · have positive : 0 < c.p.toNat := Nat.pos_of_ne_zero fun none => zero (UInt32.toNat_inj.mp none)
    have pred := toNat_pred positive
    have next : (c.p - 1).toNat + (bytes.length + 1) = capacity := by omega
    by_cases offset : c.offset = 0
    · rw [Cursor.putByte_turn offset]
      obtain ⟨samePage, sameFree, sameStores, isP, isOffset⟩ := c.turn_eq fromKmem oldFs
      have held : (c.turn fromKmem oldFs).Held init bytes := by
        refine ⟨?_, ?_⟩
        · rw [samePage, sameFree]
          exact frames
        · rw [samePage, sameStores]
          exact filled.recorded
      rcases Cursor.findPage_spec held (by rw [isP]; exact next) with
        ⟨c', found, frames', recorded', page', p', offset', fs'⟩ | ⟨full, few⟩
      · rw [found]
        rw [isP] at page' p'
        rw [isOffset] at offset'
        rw [Cursor.turn_fs segment] at fs'
        change Puts _ _ _ _ (Cursor.store contents byte (if fromKmem = 2 then c'.setFs newFs else c'))
        split
        next two =>
          exact Cursor.store_spec frames' recorded' (p' ▸ page') (p' ▸ next) (p' ▸ offset') (if_pos two).symm right
        next other =>
          exact Cursor.store_spec frames' recorded' (p' ▸ page') (p' ▸ next) (p' ▸ offset')
            (fs'.trans (if_neg other).symm) right
      · rw [full]
        exact .full (suffix_cons _ _) held (Cursor.turn_fs segment) few
    · obtain ⟨isOffset, found⟩ := inStep.resolve_left offset
      have sizes := pageSize_eq
      have positive' : 0 < c.offset := by omega
      rw [Cursor.putByte_stay positive']
      -- the same page as for the byte before
      have samePage : (c.p - 1).toNat / PAGE_SIZE = c.p.toNat / PAGE_SIZE := by
        rw [pred, sizes]
        rw [sizes] at isOffset
        omega
      have count : pagesFor (bytes.length + 1) = pagesFor bytes.length := by
        rw [sizes] at isOffset found
        rw [capacity_eq] at place
        cases length : bytes.length with
        | zero =>
          rw [length] at place frames
          have absent := frames.getElem?_low (i := c.p.toNat / 4096) (by rw [pagesFor_zero, maxArgPages_eq]; omega)
          cases absent.symm.trans found
        | succ n =>
          rw [length] at place
          rw [pagesFor_succ, pagesFor_succ]
          omega
      refine Cursor.store_spec ?_ filled.recorded ?_ next ?_ segment right
      · rw [count]
        exact frames
      · dsimp only
        rw [samePage]
        exact found
      · dsimp only
        rw [pred, sizes]
        rw [sizes] at isOffset
        omega

theorem Cursor.putBytes_puts (list : List UInt8) (filled : c.Filled init bytes) (inStep : c.InStep)
    (segment : c.fs = loopFs fromKmem oldFs newFs) (right : contents = loopFs fromKmem oldFs newFs) :
    Puts init (list.reverse ++ bytes) (loopFs fromKmem oldFs newFs) oldFs
      (c.putBytes fromKmem oldFs newFs contents list) := by
  induction list generalizing c bytes with
  | nil => exact .done filled inStep segment
  | cons byte rest ih =>
    rw [reverse_cons, append_assoc]
    refine (Cursor.putByte_puts filled inStep segment right byte).bind (suffix_append _ _) ?_
    intro c filled inStep segment
    exact ih filled inStep segment

/-- The segments of an array are the ones that `copy_strings` reads it through. -/
def StringArray.Right (argv : StringArray) (fromKmem : Nat) (oldFs newFs : Segment) : Prop :=
  argv.contents = loopFs fromKmem oldFs newFs ∧
    argv.pointers = if fromKmem = 1 then newFs else loopFs fromKmem oldFs newFs

theorem Cursor.setFs_eq (c : Cursor) (fs : Segment) (same : c.fs = fs) : c.setFs fs = c := by
  subst same
  rfl

theorem Cursor.putString_eq {argv : StringArray} {argc : Nat} {s : CString} (right : argv.Right fromKmem oldFs newFs)
    (segment : c.fs = loopFs fromKmem oldFs newFs) (found : argv.list[argc]? = some s) :
    c.putString fromKmem oldFs newFs argv argc =
      c.putBytes fromKmem oldFs newFs argv.contents (terminated s.bytes).reverse := by
  obtain ⟨contents, pointers⟩ := right
  have never : ¬c.p - UInt32.ofNat (terminated s.bytes).length < 0 := UInt32.not_lt_zero
  unfold Cursor.putString
  by_cases one : fromKmem = 1
  · have loop : loopFs fromKmem oldFs newFs = oldFs := if_neg (by rw [one]; decide)
    have restored : (c.setFs newFs).setFs oldFs = c := c.setFs_eq oldFs (segment.trans loop)
    rw [if_pos one] at pointers
    simp only [if_pos one, found, restored]
    rw [if_neg (fun differ => differ pointers.symm), if_neg (fun differ => differ (segment.trans contents.symm)),
      if_neg never]
  · rw [if_neg one] at pointers
    simp only [if_neg one, found]
    rw [if_neg (fun differ => differ (segment.trans pointers.symm)),
      if_neg (fun differ => differ (segment.trans contents.symm)), if_neg never]

def joined (strings : List CString) : List UInt8 := strings.flatMap fun s => terminated s.bytes

theorem Cursor.putStrings_puts {argv : StringArray} {argc : Nat} (right : argv.Right fromKmem oldFs newFs)
    (enough : argc ≤ argv.list.length) (filled : c.Filled init bytes) (inStep : c.InStep)
    (segment : c.fs = loopFs fromKmem oldFs newFs) :
    Puts init (joined (argv.list.take argc) ++ bytes) (loopFs fromKmem oldFs newFs) oldFs
      (c.putStrings fromKmem oldFs newFs argv argc) := by
  induction argc generalizing c bytes with
  | zero => exact .done filled inStep segment
  | succ argc ih =>
    have found := getElem?_eq_getElem enough
    have last : joined (argv.list.take (argc + 1)) ++ bytes =
        joined (argv.list.take argc) ++ (terminated argv.list[argc].bytes ++ bytes) := by
      rw [take_add_one, found, joined, flatMap_append, append_assoc]
      simp [joined]
    rw [last, Cursor.putStrings, Cursor.putString_eq right segment found]
    have string := Cursor.putBytes_puts (terminated argv.list[argc].bytes).reverse filled inStep segment right.1
    rw [reverse_reverse] at string
    refine string.bind (suffix_append _ _) ?_
    intro c filled inStep segment
    exact ih (Nat.le_of_succ_le enough) filled inStep segment

end Loops

end Cursor

/-! ## One call -/

inductive Copies (init : List Nat) (bytes : List UInt8) (fs : Segment) : Except Fault ArgPages → Prop where
  | done {a : ArgPages} : a.Filled init bytes → a.fs = fs → Copies init bytes fs (.ok a)
  | full {a : ArgPages} {stored : List UInt8} :
      stored <:+ bytes → a.Held init stored → a.p = 0 → a.fs = fs → init.length < MAX_ARG_PAGES →
      Copies init bytes fs (.ok a)
  | outside {index : UInt32} :
      capacity < bytes.length → MAX_ARG_PAGES ≤ init.length → Copies init bytes fs (.error (.outside index))

theorem copyStrings_copies {argc : Int} {argv : StringArray} {fromKmem : Nat} {a : ArgPages}
    (right : argv.Right fromKmem a.fs .kernel) (whole : argc.toNat = argv.list.length)
    (filled : a.Filled init bytes) (positive : a.p ≠ 0) :
    Copies init (joined argv.list ++ bytes) a.fs (copyStrings argc argv fromKmem a) := by
  unfold copyStrings
  rw [if_neg positive]
  simp only
  generalize isStart : (if fromKmem = 2 then Cursor.setFs { a with offset := 0, pag := 0 } .kernel
    else ({ a with offset := 0, pag := 0 } : Cursor)) = start
  have begins : start.Filled init bytes ∧ start.InStep ∧ start.fs = loopFs fromKmem a.fs .kernel := by
    rw [← isStart]
    split
    next two => exact ⟨⟨⟨filled.frames, filled.recorded⟩, filled.place⟩, .inl rfl, (if_pos two).symm⟩
    next other => exact ⟨⟨⟨filled.frames, filled.recorded⟩, filled.place⟩, .inl rfl, (if_neg other).symm⟩
  obtain ⟨filled, inStep, segment⟩ := begins
  have puts := Cursor.putStrings_puts right whole.le filled inStep segment
  rw [whole, take_length] at puts
  rw [whole]
  cases result : start.putStrings fromKmem a.fs .kernel argv argv.list.length with
  | ok c =>
    rw [result] at puts
    cases puts with
    | done filled inStep segment =>
      dsimp only
      split
      next two => exact .done ⟨⟨filled.frames, filled.recorded⟩, filled.place⟩ rfl
      next other => exact .done filled (segment.trans (if_neg other))
  | error stop =>
    rw [result] at puts
    cases puts with
    | full stored held back few => exact .full stored ⟨held.frames, held.recorded⟩ rfl back few
    | outside long enough => exact .outside long enough

end Linux012.Fs.ArgumentPages
