import Linux012.Fs.Exec

/-! What `do_execve` leaves on the stack of the new program. -/

set_option autoImplicit false

namespace Linux012.Fs.Exec

open ByteMemory Function List

/-! ## The argument pages -/

/-- The pages hold these bytes from `p` on. -/
def Stored (page : Nat → Option (Nat → UInt8)) : Nat → List UInt8 → Prop
  | _, [] => True
  | p, byte :: rest =>
    (∃ pag, page (p / PAGE_SIZE) = some pag ∧ pag (p % PAGE_SIZE) = byte) ∧ Stored page (p + 1) rest

section Stored

variable {page : Nat → Option (Nat → UInt8)} {p : Nat} {bytes : List UInt8}

theorem Stored.allocate {i : Nat} (stored : Stored page p bytes) (absent : page i = none)
    (pag : Option (Nat → UInt8)) : Stored (update page i pag) p bytes := by
  induction bytes generalizing p with
  | nil => trivial
  | cons byte rest ih =>
    obtain ⟨⟨here, found, read⟩, behind⟩ := stored
    have differ : p / PAGE_SIZE ≠ i := by
      rintro rfl
      cases absent.symm.trans found
    exact ⟨⟨here, (update_of_ne differ ..).trans found, read⟩, ih behind⟩

theorem Stored.store {x : Nat} (stored : Stored page p bytes) (below : x < p) (byte : UInt8) :
    Stored (update page (x / PAGE_SIZE)
      ((page (x / PAGE_SIZE)).map fun pag => update pag (x % PAGE_SIZE) byte)) p bytes := by
  induction bytes generalizing p with
  | nil => trivial
  | cons first rest ih =>
    obtain ⟨⟨pag, found, read⟩, behind⟩ := stored
    refine ⟨?_, ih behind (Nat.lt_succ_of_lt below)⟩
    by_cases same : p / PAGE_SIZE = x / PAGE_SIZE
    · have differ : p % PAGE_SIZE ≠ x % PAGE_SIZE := by
        intro offset
        have left := Nat.div_add_mod p PAGE_SIZE
        have right := Nat.div_add_mod x PAGE_SIZE
        rw [same, offset] at left
        omega
      refine ⟨update pag (x % PAGE_SIZE) byte, ?_, (update_of_ne differ ..).trans read⟩
      rw [same, update_self, ← same, found]
      rfl
    · exact ⟨pag, (update_of_ne same ..).trans found, read⟩

end Stored

def ArgPages.Filled (a : ArgPages) (bytes : List UInt8) : Prop :=
  a.p + bytes.length = PAGE_SIZE * MAX_ARG_PAGES - 4 ∧ Stored a.page a.p bytes

def Cursor.InStep (c : Cursor) : Prop :=
  c.offset = 0 ∨ c.offset = (c.p % PAGE_SIZE : Nat) ∧ c.pag = c.p / PAGE_SIZE ∧ (c.page c.pag).isSome

section Cursor

variable {c c' : Cursor} {bytes : List UInt8}

theorem Cursor.store_filled {byte : UInt8} (offset : c.offset = (c.p % PAGE_SIZE : Nat)) (pag : c.pag = c.p / PAGE_SIZE)
    (mapped : (c.page c.pag).isSome) (length : c.p + 1 + bytes.length = PAGE_SIZE * MAX_ARG_PAGES - 4)
    (stored : Stored c.page (c.p + 1) bytes) :
    (c.store byte).InStep ∧ (c.store byte).Filled (byte :: bytes) := by
  obtain ⟨there, found⟩ := Option.isSome_iff_exists.mp mapped
  have written : (c.store byte).page = update c.page (c.p / PAGE_SIZE)
      ((c.page (c.p / PAGE_SIZE)).map fun pag => update pag (c.p % PAGE_SIZE) byte) := by
    simp only [Cursor.store, pag, offset, Int.toNat_natCast]
  rw [pag] at found
  refine ⟨.inr ⟨offset, pag, ?_⟩, ?_, ?_⟩
  · have same : (c.store byte).pag = c.p / PAGE_SIZE := pag
    rw [same, written, update_self, found]
    rfl
  · rw [length_cons]
    change c.p + (bytes.length + 1) = _
    omega
  · change Stored (c.store byte).page c.p (byte :: bytes)
    rw [written]
    refine ⟨⟨update there (c.p % PAGE_SIZE) byte, ?_, update_self ..⟩, stored.store (Nat.lt_succ_self _) byte⟩
    rw [update_self, found]
    rfl

theorem Cursor.putByte_filled {byte : UInt8} (put : c.putByte byte = .ok c') (inStep : c.InStep)
    (filled : c.Filled bytes) : c'.InStep ∧ c'.Filled (byte :: bytes) := by
  obtain ⟨length, stored⟩ := filled
  unfold Cursor.putByte at put
  split at put
  · cases put
  next nonzero =>
    have before : c.p - 1 + 1 = c.p := Nat.sub_add_cancel (Nat.pos_of_ne_zero nonzero)
    dsimp only at put
    split at put
    · split at put
      next there found =>
        cases put
        refine Cursor.store_filled rfl rfl ?_ (by rw [before]; exact length) (by rw [before]; exact stored)
        rw [found]
        rfl
      next absent =>
        split at put
        · cases put
        · cases put
          refine Cursor.store_filled rfl rfl ?_ (by rw [before]; exact length) ?_
          · dsimp only
            rw [update_self]
            rfl
          · dsimp only
            rw [before]
            exact stored.allocate absent _
    next inPage =>
      cases put
      rcases inStep with zero | ⟨offset, pag, mapped⟩
      · rw [zero] at inPage
        exact absurd (by decide) inPage
      · -- the page is that of the byte above
        refine Cursor.store_filled ?_ ?_ mapped (by rw [before]; exact length) (by rw [before]; exact stored)
        · change c.offset - 1 = ((c.p - 1) % PAGE_SIZE : Nat)
          rw [PAGE_SIZE] at offset ⊢
          omega
        · change c.pag = (c.p - 1) / PAGE_SIZE
          rw [PAGE_SIZE] at offset pag ⊢
          omega

theorem Cursor.putBytes_filled {list : List UInt8} (put : c.putBytes list = .ok c') (inStep : c.InStep)
    (filled : c.Filled bytes) : c'.InStep ∧ c'.Filled (list.reverse ++ bytes) := by
  induction list generalizing c bytes with
  | nil =>
    cases put
    exact ⟨inStep, filled⟩
  | cons byte rest ih =>
    unfold Cursor.putBytes at put
    split at put
    next first =>
      obtain ⟨inStep, filled⟩ := Cursor.putByte_filled first inStep filled
      rw [reverse_cons, append_assoc]
      exact ih put inStep filled
    next => cases put

end Cursor

def joined (strings : List (List UInt8)) : List UInt8 := strings.flatMap terminated

variable {bytes : List UInt8}

theorem Cursor.putStrings_filled {c c' : Cursor} {strings : List CString} (put : c.putStrings strings = .ok c')
    (inStep : c.InStep) (filled : c.Filled bytes) :
    c'.Filled (joined (strings.reverse.map CString.bytes) ++ bytes) := by
  induction strings generalizing c bytes with
  | nil =>
    cases put
    exact filled
  | cons s rest ih =>
    unfold Cursor.putStrings at put
    split at put
    next first =>
      obtain ⟨inStep, filled⟩ := Cursor.putBytes_filled first inStep filled
      rw [reverse_reverse] at filled
      have all := ih put inStep filled
      rw [← append_assoc] at all
      simpa [joined, flatMap_append] using all
    next => cases put

theorem copyStrings_filled {argc : Int} {argv : List CString} {a a' : ArgPages}
    (copied : copyStrings argc argv a = .ok a') (right : argc.toNat = argv.length) (filled : a.Filled bytes) :
    a'.Filled (joined (argv.map CString.bytes) ++ bytes) := by
  unfold copyStrings at copied
  rw [right, take_length] at copied
  split at copied
  · cases copied
  · split at copied
    next c put =>
      cases copied
      have after := Cursor.putStrings_filled put (.inl rfl) filled
      rwa [reverse_reverse] at after
    next => cases copied

theorem emptyPages_filled (free : Nat) : (emptyPages free).Filled [] := ⟨rfl, trivial⟩

/-! ## The new memory -/

theorem putPages_above (page : Nat → Option (Nat → UInt8)) (n base : Nat) (mem : Memory) {x : Nat}
    (above : base + n * PAGE_SIZE ≤ x) : putPages page n (base + n * PAGE_SIZE) mem x = mem x := by
  induction n generalizing mem with
  | zero => rfl
  | succ n ih =>
    have next : base + (n + 1) * PAGE_SIZE - PAGE_SIZE = base + n * PAGE_SIZE := by
      rw [Nat.succ_mul]
      omega
    rw [Nat.succ_mul] at above
    rw [putPages, next, ih _ (by omega)]
    cases page n with
    | none => rfl
    | some pag => exact if_neg (by omega)

theorem putPages_apply {page : Nat → Option (Nat → UInt8)} {n k : Nat} (base : Nat) (mem : Memory)
    {pag : Nat → UInt8} (below : k < n * PAGE_SIZE) (found : page (k / PAGE_SIZE) = some pag) :
    putPages page n (base + n * PAGE_SIZE) mem (base + k) = pag (k % PAGE_SIZE) := by
  induction n generalizing mem with
  | zero => omega
  | succ n ih =>
    have next : base + (n + 1) * PAGE_SIZE - PAGE_SIZE = base + n * PAGE_SIZE := by
      rw [Nat.succ_mul]
      omega
    rw [putPages, next]
    by_cases lower : k < n * PAGE_SIZE
    · exact ih _ lower
    · have isN : k / PAGE_SIZE = n := by
        rw [PAGE_SIZE] at below lower ⊢
        omega
      have place : base + n * PAGE_SIZE ≤ base + k ∧ base + k < base + n * PAGE_SIZE + PAGE_SIZE := by
        rw [PAGE_SIZE] at below lower ⊢
        omega
      have offset : base + k - (base + n * PAGE_SIZE) = k % PAGE_SIZE := by
        rw [PAGE_SIZE] at below lower ⊢
        omega
      rw [isN] at found
      rw [putPages_above page n base _ place.1, found]
      dsimp only
      rw [putDirtyPage, if_pos place, offset]

def argBase : Nat := TASK_SIZE - (LIBRARY_SIZE + MAX_ARG_PAGES * PAGE_SIZE)

variable {p : Nat}

theorem changeLdt_loaded {page : Nat → Option (Nat → UInt8)} (image : Memory) (stored : Stored page p bytes)
    (fits : p + bytes.length ≤ MAX_ARG_PAGES * PAGE_SIZE) :
    Loaded (changeLdt page image) (argBase + p) bytes := by
  induction bytes generalizing p with
  | nil => trivial
  | cons byte rest ih =>
    obtain ⟨⟨pag, found, read⟩, behind⟩ := stored
    rw [length_cons] at fits
    refine ⟨?_, ?_⟩
    · rw [← read]
      exact putPages_apply (n := MAX_ARG_PAGES) argBase image (by omega) found
    · exact ih behind (by omega)

/-! ## The tables -/

def Points (mem : Memory) : Nat → Nat → List (List UInt8) → Prop
  | _, _, [] => True
  | table, p, s :: rest => getLong mem table = p ∧ Points mem (table + 4) (p + s.length + 1) rest

variable {strings : List (List UInt8)} {mem : Memory}

theorem Points.congr {mem' : Memory} {table : Nat} (points : Points mem table p strings)
    (same : ∀ x, table ≤ x → x < table + 4 * strings.length → mem' x = mem x) : Points mem' table p strings := by
  induction strings generalizing table p with
  | nil => trivial
  | cons s rest ih =>
    rw [length_cons] at same
    refine ⟨(getLong_congr fun x above below => same x above (by omega)).trans points.1, ?_⟩
    exact ih points.2 fun x above below => same x (by omega) (by omega)

theorem Points.pointers {table : Nat} (points : Points mem table p strings)
    (loaded : Loaded mem p (joined strings)) (ends : getLong mem (table + 4 * strings.length) = 0) :
    Pointers mem table strings := by
  induction strings generalizing table p with
  | nil => exact ends
  | cons s rest ih =>
    obtain ⟨address, behind⟩ := points
    obtain ⟨here, later⟩ := loaded_append.mp loaded
    have length : (terminated s).length = s.length + 1 := length_append
    rw [length] at later
    refine ⟨address ▸ here, ih behind later ?_⟩
    rw [← ends, length_cons]
    congr 1
    omega

theorem putPointers_spec (table : Nat) (noNul : ∀ s ∈ strings, 0 ∉ s) (loaded : Loaded mem p (joined strings))
    (apart : table + 4 * strings.length ≤ p) (fits : p + (joined strings).length ≤ TASK_SIZE) :
    ∃ mem', putPointers strings.length table p mem =
        (mem', table + 4 * strings.length, p + (joined strings).length) ∧
      Points mem' table p strings ∧
      ∀ x, x < table ∨ table + 4 * strings.length ≤ x → mem' x = mem x := by
  have space : TASK_SIZE = 0x04000000 := rfl
  induction strings generalizing table p mem with
  | nil => exact ⟨mem, rfl, trivial, fun _ _ => rfl⟩
  | cons s rest ih =>
    have length : (joined (s :: rest)).length = s.length + 1 + (joined rest).length := by
      simp [joined, terminated, Nat.add_assoc, Nat.add_comm 1]
    rw [length_cons] at apart ⊢
    rw [length] at fits ⊢
    have kept : Loaded (putLong mem table p) p (joined (s :: rest)) :=
      loaded.congr fun x above _ => putLong_of_outside mem (.inr (by omega))
    obtain ⟨here, later⟩ := loaded_append.mp kept
    have skipped : skipString (putLong mem table p) TASK_SIZE p = p + s.length + 1 :=
      skipString_eq here (noNul s (.head _)) (by omega)
    have lengthS : (terminated s).length = s.length + 1 := length_append
    rw [lengthS, ← Nat.add_assoc] at later
    obtain ⟨mem', result, points, frame⟩ := ih (table + 4) (p := p + s.length + 1)
      (fun other member => noNul other (.tail _ member)) later (by omega) (by omega)
    refine ⟨mem', ?_, ⟨?_, points⟩, fun x outside => ?_⟩
    · rw [putPointers, skipped, result]
      congr 2 <;> omega
    · rw [getLong_congr fun x _ below => frame x (.inl (by omega))]
      exact getLong_putLong_self mem table (by omega)
    · rw [frame x (by omega)]
      exact putLong_of_outside mem (by omega)

theorem createTables_spec {args envs : List (List UInt8)} (noNul : ∀ s ∈ args ++ envs, 0 ∉ s)
    (loaded : Loaded mem p (joined (args ++ envs))) (room : 4 * (args.length + envs.length + 6) ≤ p)
    (fits : p + (joined (args ++ envs)).length ≤ TASK_SIZE) :
    ∀ image : Image, (image.sp, image.mem) = createTables mem p args.length envs.length →
      Receives image args envs := by
  rintro ⟨m7, eip, bottom⟩ made
  have space : TASK_SIZE = 0x04000000 := rfl
  have split : joined (args ++ envs) = joined args ++ joined envs := flatMap_append
  rw [split] at loaded fits
  rw [length_append] at fits
  simp only [createTables] at made
  generalize aligned : p / 4 * 4 = top at made
  have alignedLe : top ≤ p ∧ p < top + 4 := by omega
  obtain ⟨envp, envpEq⟩ : ∃ envp, top = envp + 4 * (envs.length + 1) := ⟨top - 4 * (envs.length + 1), by omega⟩
  obtain ⟨sp, argvEq⟩ : ∃ sp, envp = sp + 12 + 4 * (args.length + 1) := ⟨envp - 4 * (args.length + 1) - 12, by omega⟩
  rw [show top - 4 * (envs.length + 1) = envp by omega, show envp - 4 * (args.length + 1) = sp + 12 by omega] at made
  generalize start : putLong (putLong (putLong mem (sp + 12 - 4) envp) (sp + 12 - 8) (sp + 12)) (sp + 12 - 12)
    args.length = m3 at made
  have startHigh {x : Nat} (above : sp + 12 ≤ x) : m3 x = mem x := by
    rw [← start, putLong_of_outside _ (.inr (by omega)), putLong_of_outside _ (.inr (by omega)),
      putLong_of_outside _ (.inr (by omega))]
  obtain ⟨loadedArgs, loadedEnvs⟩ := loaded_append.mp loaded
  obtain ⟨m4, first, pointsArgs, frameArgs⟩ := putPointers_spec (sp + 12)
    (fun s member => noNul s (mem_append_left _ member))
    (loadedArgs.congr fun x above _ => startHigh (by omega)) (by omega) (by omega)
  rw [first] at made
  simp only at made
  generalize ended : putLong m4 (sp + 12 + 4 * args.length) 0 = m5 at made
  have endedOther {x : Nat} (outside : x < sp + 12 + 4 * args.length ∨ sp + 12 + 4 * args.length + 4 ≤ x) :
      m5 x = m4 x := by
    rw [← ended]
    exact putLong_of_outside m4 outside
  have beforeEnvs {x : Nat} (above : envp ≤ x) : m5 x = mem x := by
    rw [endedOther (.inr (by omega)), frameArgs x (.inr (by omega)), startHigh (by omega)]
  obtain ⟨m6, second, pointsEnvs, frameEnvs⟩ := putPointers_spec envp
    (fun s member => noNul s (mem_append_right _ member))
    (loadedEnvs.congr fun x above _ => beforeEnvs (by omega)) (by omega) (by omega)
  rw [second] at made
  obtain ⟨isSp, isMem⟩ := Prod.mk.inj made
  obtain rfl : bottom = sp := by omega
  have last {x : Nat} (outside : x < envp + 4 * envs.length ∨ envp + 4 * envs.length + 4 ≤ x) : m7 x = m6 x := by
    rw [isMem]
    exact putLong_of_outside m6 outside
  have below {x : Nat} (low : x < envp) : m7 x = m5 x := (last (.inl (by omega))).trans (frameEnvs x (.inl low))
  have words {x : Nat} (low : x < bottom + 12) : m7 x = m3 x := by
    rw [below (by omega), endedOther (.inl (by omega)), frameArgs x (.inl low)]
  have strings {x : Nat} (high : p ≤ x) : m7 x = mem x := by
    rw [last (.inr (by omega)), frameEnvs x (.inr (by omega)), beforeEnvs (by omega)]
  have small : p < 2 ^ 32 := by omega
  refine ⟨?_, ?_, ?_, ?_, ?_⟩ <;> dsimp only
  · rw [getLong_congr fun x _ low => words (by omega), ← start]
    exact getLong_putLong_self _ bottom (by omega)
  · rw [getLong_congr fun x _ low => words (by omega), ← start]
    rw [getLong_congr fun x _ _ => putLong_of_outside _ (by omega)]
    exact getLong_putLong_self _ (bottom + 4) (by omega)
  · rw [getLong_congr fun x _ low => words (by omega), ← start]
    rw [getLong_congr fun x _ _ => putLong_of_outside _ (by omega),
      getLong_congr fun x _ _ => putLong_of_outside _ (by omega), ← argvEq]
    exact getLong_putLong_self _ (bottom + 8) (by omega)
  · refine Points.pointers (p := p) (pointsArgs.congr fun x _ high => ?_) (loadedArgs.congr fun x high _ => strings high) ?_
    · rw [below (by omega), endedOther (.inl high)]
    · rw [getLong_congr fun x _ high => below (by omega), ← ended]
      exact getLong_putLong_self _ _ (by omega)
  · rw [← argvEq]
    refine Points.pointers (pointsEnvs.congr fun x _ high => last (.inl high))
      (loadedEnvs.congr fun x high _ => strings (by omega)) ?_
    rw [isMem]
    exact getLong_putLong_self _ _ (by omega)

theorem length_le_joined (strings : List (List UInt8)) : strings.length ≤ (joined strings).length := by
  induction strings with
  | nil => exact Nat.le_refl _
  | cons s rest ih =>
    have length : (joined (s :: rest)).length = (terminated s).length + (joined rest).length := length_append
    have ends : (terminated s).length = s.length + 1 := length_append
    rw [length, ends, length_cons]
    omega

theorem loadProgram_receives {a : ArgPages} {args envs : List (List UInt8)} (extra : List (List UInt8))
    {argc envc : Int} (image : Memory) (block : Nat → UInt8) (filled : a.Filled (joined (args ++ envs ++ extra)))
    (noNul : ∀ s ∈ args ++ envs, 0 ∉ s) (isArgc : argc.toNat = args.length) (isEnvc : envc.toNat = envs.length) :
    Receives (loadProgram image block a argc envc) args envs := by
  obtain ⟨length, stored⟩ := filled
  have sizes : argBase = 62783488 ∧ PAGE_SIZE * MAX_ARG_PAGES - 4 = 131068 ∧
      MAX_ARG_PAGES * PAGE_SIZE = 131072 ∧ TASK_SIZE = 67108864 := by decide
  have place : a.p + TASK_SIZE - (LIBRARY_SIZE + MAX_ARG_PAGES * PAGE_SIZE) = argBase + a.p := by
    rw [Nat.add_sub_assoc (by decide), Nat.add_comm]
    rfl
  have loaded := changeLdt_loaded image stored (by omega)
  have split : joined (args ++ envs ++ extra) = joined (args ++ envs) ++ joined extra := flatMap_append
  rw [split] at loaded length
  rw [length_append] at length
  have few := length_le_joined (args ++ envs)
  rw [length_append] at few
  refine createTables_spec noNul (loaded_append.mp loaded).1 (by omega) (by omega) _ ?_
  simp only [loadProgram, place, isArgc, isEnvc]

/-! ## The interpreter line -/

theorem CString.bytes_ofBytes (noNul : 0 ∉ bytes) : (ofBytes bytes).bytes = bytes := by
  refine takeWhile_eq_self_iff.mpr fun byte member => ?_
  simp only [ne_eq, decide_not, Bool.not_eq_true', decide_eq_false_iff_not]
  rintro rfl
  exact noNul member

theorem baseName_of_notMem {path : List UInt8} (absent : SLASH ∉ path) : baseName path = path := by
  have whole : path.reverse.takeWhile (· ≠ SLASH) = path.reverse := by
    refine takeWhile_eq_self_iff.mpr fun c member => ?_
    simp only [ne_eq, decide_not, Bool.not_eq_true', decide_eq_false_iff_not]
    rintro rfl
    exact absent (mem_reverse.mp member)
  rw [baseName, whole, reverse_reverse]

theorem baseName_cons {c : UInt8} {path : List UInt8} (slash : c = SLASH ∨ SLASH ∈ path) :
    baseName (c :: path) = baseName path := by
  rw [baseName, reverse_cons, takeWhile_append]
  split
  next whole =>
    have all : path.reverse.takeWhile (· ≠ SLASH) = path.reverse := ( takeWhile_prefix _).eq_of_length whole
    have absent : SLASH ∉ path := by
      intro member
      have kept := takeWhile_eq_self_iff.mp all SLASH (mem_reverse.mpr member)
      simp at kept
    obtain rfl := slash.resolve_right absent
    rw [baseName, all]
    simp
  next => rfl

theorem lastName_eq (iName path : List UInt8) :
    lastName iName path = if SLASH ∈ path then baseName path else iName := by
  induction path generalizing iName with
  | nil => rfl
  | cons c path ih =>
    rw [lastName, ih]
    by_cases later : SLASH ∈ path
    · rw [if_pos later, if_pos (mem_cons_of_mem _ later), baseName_cons (.inr later)]
    · rw [if_neg later]
      by_cases here : c = SLASH
      · rw [if_pos here, if_pos (by simp [here]), baseName_cons (.inl here), baseName_of_notMem later]
      · have absent : SLASH ∉ c :: path := by
          rw [mem_cons, not_or]
          exact ⟨Ne.symm here, later⟩
        rw [if_neg here, if_neg absent]

theorem parseScript_iName {block : Nat → UInt8} {script : Script} (parsed : parseScript block = some script) :
    script.iName.bytes = baseName script.interp.bytes := by
  unfold parseScript at parsed
  split at parsed
  · dsimp only at parsed
    split at parsed
    · cases parsed
    · cases parsed
      have noNul : 0 ∉ (scriptLine block).takeWhile (!isBlank ·) := by
        intro member
        have inLine := takeWhile_subset _ member
        have inBuffer := takeWhile_subset _ ((dropWhile_sublist _).subset inLine)
        have nonzero := mem_takeWhile_imp inBuffer
        simp at nonzero
      generalize (scriptLine block).takeWhile (!isBlank ·) = interp at noNul
      dsimp only
      rw [CString.bytes_ofBytes noNul, lastName_eq]
      by_cases slash : SLASH ∈ interp
      · rw [if_pos slash]
        refine CString.bytes_ofBytes fun member => noNul ?_
        exact mem_reverse.mp (takeWhile_subset _ (mem_reverse.mp member))
      · rw [if_neg slash, CString.bytes_ofBytes noNul, baseName_of_notMem slash]
  · cases parsed

/-! ## The call -/

theorem bind_ok {α β : Type} {x : Except Failure α} {f : α → Except Failure β} {b : β} (done : x >>= f = .ok b) :
    ∃ a, x = .ok a ∧ f a = .ok b := by
  cases x with
  | error failure => cases done
  | ok a => exact ⟨a, rfl, done⟩

theorem readHeader_block {current : Current} {inode : Inode} {block : Nat → UInt8}
    (read : readHeader current inode = .ok block) : inode.block = some block := by
  unfold readHeader at read
  split at read
  · cases read
  · split at read
    · cases read
    · split at read
      · cases read
      next found =>
        cases read
        exact found

theorem noNul_bytes (strings : List CString) : ∀ s ∈ strings.map CString.bytes, 0 ∉ s := by
  intro s member
  obtain ⟨string, -, rfl⟩ := mem_map.mp member
  exact string.property

section Execve

variable {namei : CString → Option Inode} {current : Current} {image : Memory} {free : Nat}
  {filename : CString} {argv envp : List CString} {result : Image}

def scriptArgs (script : Script) (filename : CString) (argv : List CString) : List CString :=
  script.iName :: script.iArg.toList ++ filename :: argv.tail

theorem scriptArgs_length (script : Script) (filename : CString) (argv : List CString) :
    (scriptArgs script filename argv).length = script.iArg.toList.length + argv.tail.length + 2 := by
  simp only [scriptArgs, length_append, length_cons]
  omega

theorem spliceArg_filled {iArg : Option CString} {a a' : ArgPages} {argc argc' : Int} {bytes : List UInt8}
    (spliced : spliceArg iArg a argc = .ok (a', argc')) (filled : a.Filled bytes) :
    a'.Filled (joined (iArg.toList.map CString.bytes) ++ bytes) ∧ argc' = argc + iArg.toList.length := by
  cases iArg with
  | none =>
    cases spliced
    exact ⟨filled, (Int.add_zero argc).symm⟩
  | some iArg =>
    simp only [spliceArg] at spliced
    cases copied : copyStrings 1 [iArg] a with
    | error failure =>
      rw [copied] at spliced
      cases spliced
    | ok copy =>
      rw [copied] at spliced
      cases spliced
      exact ⟨copyStrings_filled copied rfl filled, rfl⟩

theorem spliceScript_spec {script : Script} {a : ArgPages} {argc : Int}
    (spliced : spliceScript free filename argv envp script = .ok (a, argc)) :
    a.Filled (joined ((scriptArgs script filename argv ++ envp).map CString.bytes)) ∧
      argc = argv.length + script.iArg.toList.length + 1 := by
  unfold spliceScript at spliced
  obtain ⟨a₁, copied₁, spliced⟩ := bind_ok spliced
  obtain ⟨a₂, copied₂, spliced⟩ := bind_ok spliced
  obtain ⟨a₃, copied₃, spliced⟩ := bind_ok spliced
  obtain ⟨⟨a₄, argc₄⟩, copied₄, spliced⟩ := bind_ok spliced
  obtain ⟨a₅, copied₅, spliced⟩ := bind_ok spliced
  have filled₁ := copyStrings_filled copied₁ (by rw [count, Int.toNat_natCast]) (emptyPages_filled free)
  have rest : (count argv - 1).toNat = argv.tail.length := by
    rw [count, length_tail]
    omega
  have filled₂ := copyStrings_filled copied₂ rest filled₁
  have filled₃ := copyStrings_filled copied₃ rfl filled₂
  obtain ⟨filled₄, argcEq⟩ := spliceArg_filled copied₄ filled₃
  have filled₅ := copyStrings_filled copied₅ rfl filled₄
  dsimp only at spliced
  split at spliced
  · cases spliced
  · cases spliced
    refine ⟨?_, ?_⟩
    · simpa [scriptArgs, joined] using filled₅
    · rw [argcEq, count]
      omega

theorem execBinary_receives {inode : Inode} {block : Nat → UInt8}
    (done : execBinary image free argv envp inode block = .ok result) :
    Receives result (argv.map CString.bytes) (envp.map CString.bytes) := by
  unfold execBinary at done
  split at done
  · obtain ⟨a₁, copied₁, done⟩ := bind_ok done
    obtain ⟨a₂, copied₂, done⟩ := bind_ok done
    have filled₁ := copyStrings_filled copied₁ (by rw [count, Int.toNat_natCast]) (emptyPages_filled free)
    have filled₂ := copyStrings_filled copied₂ (by rw [count, Int.toNat_natCast]) filled₁
    split at done
    · cases done
    · cases done
      refine loadProgram_receives [] image block ?_ ?_ ?_ ?_
      · simpa [joined] using filled₂
      · rw [← map_append]
        exact noNul_bytes _
      · rw [count, Int.toNat_natCast, length_map]
      · rw [count, Int.toNat_natCast, length_map]
  · cases done

/-- The interpreter gets the first ones of its strings, as many as there are given
arguments and two or three more, and the rest as its environment. -/
theorem execScript_receives {script : Script}
    (done : execScript namei current image free filename argv envp script = .ok result) :
    ∃ args envs extra : List (List UInt8),
      args ++ envs ++ extra = (scriptArgs script filename argv ++ envp).map CString.bytes ∧
      args.length = argv.length + script.iArg.toList.length + 1 ∧ envs.length = envp.length ∧
      Receives result args envs := by
  unfold execScript at done
  obtain ⟨⟨a, argc⟩, spliced, done⟩ := bind_ok done
  obtain ⟨filled, isArgc⟩ := spliceScript_spec spliced
  generalize all : (scriptArgs script filename argv ++ envp).map CString.bytes = strings at filled
  have noNul := noNul_bytes (scriptArgs script filename argv ++ envp)
  rw [all] at noNul
  have length : strings.length = script.iArg.toList.length + argv.tail.length + 2 + envp.length := by
    rw [← all, length_map, length_append, scriptArgs_length]
  rw [length_tail] at length
  generalize number : argv.length + script.iArg.toList.length + 1 = n
  have parts : strings.take n ++ (strings.drop n).take envp.length ++ (strings.drop n).drop envp.length = strings := by
    rw [append_assoc, take_append_drop, take_append_drop]
  have argsLength : (strings.take n).length = n := by
    rw [length_take]
    omega
  have envsLength : ((strings.drop n).take envp.length).length = envp.length := by
    rw [length_take, length_drop]
    omega
  refine ⟨strings.take n, (strings.drop n).take envp.length, (strings.drop n).drop envp.length, parts, argsLength,
    envsLength, ?_⟩
  dsimp only at done
  split at done
  · cases done
  next inode found =>
    obtain ⟨block, read, done⟩ := bind_ok done
    split at done
    · cases done
      refine loadProgram_receives _ image block (by rwa [parts]) (fun s member => noNul s ?_) ?_ ?_
      · rw [← parts]
        exact mem_append_left _ member
      · rw [argsLength]
        omega
      · rw [envsLength, count, Int.toNat_natCast]
    · cases done

/-- A program that starts has its arguments and its environment, except for a script
that is called with no arguments at all. -/
theorem arguments_received_iff
    (done : doExecve namei current image free filename argv envp = .ok result) :
    Receives result (expectedArgs namei filename argv) (envp.map CString.bytes) ↔
      ¬(namesScript namei filename = true ∧ argv = []) := by
  unfold doExecve at done
  cases file : namei filename with
  | none =>
    rw [file] at done
    cases done
  | some inode =>
    simp only [file] at done
    obtain ⟨block, read, done⟩ := bind_ok done
    have isBlock : firstBlock namei filename = some block := by
      rw [firstBlock, file]
      exact readHeader_block read
    by_cases isScript : isScript block = true
    · rw [if_pos isScript] at done
      cases parsed : parseScript block with
      | none =>
        rw [parsed] at done
        cases done
      | some script =>
        simp only [parsed] at done
        have expected : expectedArgs namei filename argv =
            (scriptArgs script filename argv).map CString.bytes := by
          have kept : (some block).filter Exec.isScript = some block := if_pos isScript
          simp [expectedArgs, isBlock, kept, parsed, scriptArgs, parseScript_iName parsed]
          cases script.iArg <;> rfl
        have names : namesScript namei filename = true := by simp [namesScript, isBlock, isScript]
        have expectedLength := congrArg List.length expected
        rw [length_map, scriptArgs_length] at expectedLength
        obtain ⟨args, envs, extra, all, argsLength, envsLength, received⟩ := execScript_receives done
        constructor
        · rintro receives ⟨-, rfl⟩
          -- the word at the stack pointer is one too small
          have equal := received.argc.symm.trans receives.argc
          rw [expectedLength, argsLength] at equal
          simp at equal
        · intro given
          have nonempty : argv ≠ [] := fun empty => given ⟨names, empty⟩
          have positive := length_pos_of_ne_nil nonempty
          rw [map_append] at all
          have cut : args = (scriptArgs script filename argv).map CString.bytes := by
            rw [append_assoc] at all
            refine (append_inj all ?_).1
            rw [argsLength, length_map, scriptArgs_length, length_tail]
            omega
          have cut' : envs = envp.map CString.bytes := by
            rw [cut, append_assoc] at all
            have behind := append_cancel_left all
            have none : extra = [] := by
              have lengths := congrArg List.length behind
              rw [length_append, envsLength, length_map] at lengths
              exact eq_nil_of_length_eq_zero (by omega)
            rwa [none, append_nil] at behind
          rw [expected, ← cut, ← cut']
          exact received
    · rw [if_neg isScript] at done
      have expected : expectedArgs namei filename argv = argv.map CString.bytes := by
        have refused : (some block).filter Exec.isScript = none := if_neg isScript
        simp [expectedArgs, isBlock, refused]
      rw [expected]
      refine iff_of_true (execBinary_receives done) fun both => ?_
      have names := both.1
      simp [namesScript, isBlock, isScript] at names

end Execve

/-! ## A script -/

def shellName : CString := ⟨[47, 98, 105, 110, 47, 115, 104], by decide⟩

def scriptName : CString := ⟨[47, 120], by decide⟩

def ofText (text : List UInt8) : Inode where
  mode := 0o100755
  uid := 0
  gid := 0
  size := 1024
  block := some fun i => text.getD i 0

def sampleFiles (name : CString) : Option Inode :=
  if name.bytes = scriptName.bytes then
    some (ofText [35, 33, 47, 98, 105, 110, 47, 115, 104, 32, 45, 101, 10])
  else if name.bytes = shellName.bytes then some (ofText [0x0B, 0x01])
  else none

def superUser : Current where
  euid := 0
  egid := 0
  groups := []

def sampleEnv : CString := ⟨[65, 61, 49], by decide⟩

theorem exists_ok {x : Except Failure Image} (P : Image → Prop) [DecidablePred P]
    (checked : (match x with | .ok image => decide (P image) | .error _ => false) = true) :
    ∃ image, x = .ok image ∧ P image := by
  cases x with
  | ok image => exact ⟨image, rfl, of_decide_eq_true checked⟩
  | error failure => cases checked

theorem arguments_received_script :
    ∃ image,
      doExecve sampleFiles superUser (fun _ => 0) 32 scriptName [⟨[120], by decide⟩, ⟨[98], by decide⟩] [sampleEnv] =
          .ok image ∧
        Receives image [[115, 104], [45, 101], [47, 120], [98]] [[65, 61, 49]] := by
  obtain ⟨image, done, -⟩ := exists_ok
    (x := doExecve sampleFiles superUser (fun _ => 0) 32 scriptName [⟨[120], by decide⟩, ⟨[98], by decide⟩] [sampleEnv])
    (fun _ => True) (by decide +kernel)
  exact ⟨image, done, (arguments_received_iff done).mpr fun both => nomatch both.2⟩

/-- Without arguments the name of the script becomes the environment. -/
theorem script_name_in_environment :
    ∃ image, doExecve sampleFiles superUser (fun _ => 0) 32 scriptName [] [sampleEnv] = .ok image ∧
      getLong image.mem image.sp = 2 ∧
      ¬Receives image (expectedArgs sampleFiles scriptName []) [[65, 61, 49]] := by
  obtain ⟨image, done, argc, expected⟩ := exists_ok
    (x := doExecve sampleFiles superUser (fun _ => 0) 32 scriptName [] [sampleEnv])
    (fun image => getLong image.mem image.sp = 2 ∧ (expectedArgs sampleFiles scriptName []).length = 3)
    (by decide +kernel)
  refine ⟨image, done, argc, fun receives => ?_⟩
  have equal := argc.symm.trans receives.argc
  rw [expected] at equal
  cases equal

end Linux012.Fs.Exec
