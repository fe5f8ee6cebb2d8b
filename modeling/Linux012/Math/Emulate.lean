import Linux012.Math.Transfers

/-! The emulation of one coprocessor instruction (`kernel/math/math_emulate.c`). -/

set_option autoImplicit false

namespace Linux012.Math

/-! ## Constants -/

def constPi : TempReal := ⟨⟨0x2168c235, 0xc90fdaa2⟩, 0x4000⟩

def constLn2 : TempReal := ⟨⟨0xd1cf79ac, 0xb17217f7⟩, 0x3ffe⟩

def constLg2 : TempReal := ⟨⟨0xfbcff799, 0x9a209a84⟩, 0x3ffd⟩

def constL2e : TempReal := ⟨⟨0x5c17f0bc, 0xb8aa3b29⟩, 0x3fff⟩

def constL2t : TempReal := ⟨⟨0xcd1b8afe, 0xd49a784b⟩, 0x4000⟩

/-! ## The switches -/

def setLow (old : BitVec 32) (v : BitVec 16) : BitVec 32 := old.extractLsb' 16 16 ++ v

def loadConstant (c : TempReal) : Emu Unit := do
  fpush
  setSt 0 c

/-- `switch (code)` -/
def controlSwitch (code : Nat) : Option (Emu Unit) :=
  match code with
  | 0x1d0 => some (pure ())
  | 0x1d1 | 0x1d2 | 0x1d3 | 0x1d4 | 0x1d5 | 0x1d6 | 0x1d7 => some (mathAbort (signalBit sigill))
  | 0x1e0 => some do setSt 0 (← st 0).negate
  | 0x1e1 => some do
      let r ← st 0
      setSt 0 { r with exponent := r.exponent &&& 0x7fff }
  | 0x1e2 | 0x1e3 => some (mathAbort (signalBit sigill))
  | 0x1e4 => some do modifySwd (ftst (← st 0))
  | 0x1e5 | 0x1e6 | 0x1e7 => some (mathAbort (signalBit sigill))
  | 0x1e8 => some (loadConstant .one)
  | 0x1e9 => some (loadConstant constL2t)
  | 0x1ea => some (loadConstant constL2e)
  | 0x1eb => some (loadConstant constPi)
  | 0x1ec => some (loadConstant constLg2)
  | 0x1ed => some (loadConstant constLn2)
  | 0x1ee => some (loadConstant .zero)
  | 0x1ef => some (mathAbort (signalBit sigill))
  | 0x1f0 | 0x1f1 | 0x1f2 | 0x1f3 | 0x1f4 | 0x1f5 | 0x1f6 | 0x1f7 | 0x1f8 | 0x1f9 | 0x1fa | 0x1fb | 0x1fc | 0x1fd
  | 0x1fe | 0x1ff => some (mathAbort (signalBit sigill))
  | 0x2e9 => some do
      modifySwd (fucom (← st 1) (← st 0))
      fpop
      fpop
  | 0x3d0 | 0x3d1 => some (pure ())
  | 0x3e2 => some (modifySwd (· &&& 0x7f00))
  | 0x3e3 => some (modify fun s => s.setI387 s.i387.initialise)
  | 0x3e4 => some (pure ())
  | 0x6d9 => some do
      modifySwd (fcom (← st 1) (← st 0))
      fpop
      fpop
  | 0x7e0 => some (modify fun s =>
    { s with info := { s.info with eax := setLow s.info.eax (s.i387.swd.setWidth 16) } })
  | _ => none

/-- `switch (code >> 3)`, with `i` for `code & 7` -/
def registerSwitch (k i : Nat) (tmp : TempReal) : Option (Emu Unit) :=
  match k with
  | 0x18 => some do
      let tmp := fadd (← st 0) (← st i)
      setSt 0 tmp
  | 0x19 => some do
      let tmp ← assign (fmul (← st 0) (← st i)) tmp
      setSt 0 tmp
  | 0x1a => some do
      modifySwd (fcom (← st i) tmp)
      setSt 0 tmp
  | 0x1b => some do
      modifySwd (fcom (← st i) tmp)
      setSt 0 tmp
      fpop
  | 0x1c => some do
      let tmp := (← st i).negate
      let tmp := fadd (← st 0) tmp
      setSt 0 tmp
  | 0x1d => some do
      setSt 0 (← st 0).negate
      let tmp := fadd (← st 0) (← st i)
      setSt 0 tmp
  | 0x1e => some do
      let tmp ← assign (fdiv (← st 0) (← st i)) tmp
      setSt 0 tmp
  | 0x1f => some do
      let tmp ← assign (fdiv (← st i) (← st 0)) tmp
      setSt 0 tmp
  | 0x38 => some do
      fpush
      setSt 0 (← st (i + 1))
  | 0x39 => some (fxchg 0 i)
  | 0x3b => some do
      setSt i (← st 0)
      fpop
  | 0x98 => some do
      let tmp := fadd (← st 0) (← st i)
      setSt i tmp
  | 0x99 => some do
      let tmp ← assign (fmul (← st 0) (← st i)) tmp
      setSt i tmp
  | 0x9a => some do modifySwd (fcom (← st i) (← st 0))
  | 0x9b => some do
      modifySwd (fcom (← st i) (← st 0))
      fpop
  | 0x9c => some do
      setSt i (← st i).negate
      let tmp := fadd (← st 0) (← st i)
      setSt i tmp
  | 0x9d => some do
      let tmp := (← st 0).negate
      let tmp := fadd (← st i) tmp
      setSt i tmp
  | 0x9e => some do
      let tmp ← assign (fdiv (← st 0) (← st i)) tmp
      setSt i tmp
  | 0x9f => some do
      let tmp ← assign (fdiv (← st i) (← st 0)) tmp
      setSt i tmp
  | 0xb8 => some (mathAbort (signalBit sigill))
  | 0xb9 => some (fxchg 0 i)
  | 0xba => some do setSt i (← st 0)
  | 0xbb => some do
      setSt i (← st 0)
      fpop
  | 0xbc => some do modifySwd (fucom (← st i) (← st 0))
  | 0xbd => some do
      modifySwd (fucom (← st i) (← st 0))
      fpop
  | 0xd8 => some do
      let tmp := fadd (← st i) (← st 0)
      setSt i tmp
      fpop
  | 0xd9 => some do
      let tmp ← assign (fmul (← st i) (← st 0)) tmp
      setSt i tmp
      fpop
  | 0xda => some do
      modifySwd (fcom (← st i) (← st 0))
      fpop
  | 0xdc => some do
      setSt i (← st i).negate
      let tmp := fadd (← st 0) (← st i)
      setSt i tmp
      fpop
  | 0xdd => some do
      let tmp := (← st 0).negate
      let tmp := fadd (← st i) tmp
      setSt i tmp
      fpop
  | 0xde => some do
      let tmp ← assign (fdiv (← st 0) (← st i)) tmp
      setSt i tmp
      fpop
  | 0xdf => some do
      let tmp ← assign (fdiv (← st i) (← st 0)) tmp
      setSt i tmp
      fpop
  | 0xf8 => some do
      mathAbort (signalBit sigill)
      fpop
  | 0xf9 => some (fxchg 0 i)
  | 0xfa | 0xfb => some do
      setSt i (← st 0)
      fpop
  | _ => none

/-- The loops that read the longs of `I387` from `n` on. -/
def getLongs (n : Nat) : Nat → BitVec 32 → Emu Unit
  | 0, _ => pure ()
  | k + 1, address => do
    let v ← getFsLong address
    modify fun s => s.setI387 (s.i387.setLong n v)
    getLongs (n + 1) k (address + 4)

def putLongs (n : Nat) : Nat → BitVec 32 → Emu Unit
  | 0, _ => pure ()
  | k + 1, address => do
    putFsLong ((← get).i387.long n) address
    putLongs (n + 1) k (address + 4)

/-- `switch ((code>>3) & 0xe7)` -/
def transferSwitch (code : Nat) : Option (Emu Unit) :=
  match code >>> 3 &&& 0xe7 with
  | 0x22 => some do putShortReal (← st 0) code
  | 0x23 => some do
      putShortReal (← st 0) code
      fpop
  | 0x24 => some do
      let address ← ea code
      getLongs 0 7 address
  | 0x25 => some do
      let address ← ea code
      let v ← getFsWord address
      modify fun s => s.setI387 { s.i387 with cwd := setLow s.i387.cwd v }
  | 0x26 => some do
      let address ← ea code
      putLongs 0 7 address
  | 0x27 => some do
      let address ← ea code
      putFsWord ((← get).i387.cwd.setWidth 16) address
  | 0x62 => some do putLongInt (← st 0) code
  | 0x63 => some do
      putLongInt (← st 0) code
      fpop
  | 0x65 => some do
      fpush
      let tmp ← getTempReal code
      setSt 0 tmp
  | 0x67 => some do
      putTempReal (← st 0) code
      fpop
  | 0xa2 => some do putLongReal (← st 0) code
  | 0xa3 => some do
      putLongReal (← st 0) code
      fpop
  | 0xa4 => some do
      let address ← ea code
      getLongs 0 27 address
  | 0xa6 => some do
      let address ← ea code
      putLongs 0 27 address
      modify fun s => s.setI387 s.i387.initialise
  | 0xa7 => some do
      let address ← ea code
      putFsWord ((← get).i387.swd.setWidth 16) address
  | 0xe2 => some do putShortInt (← st 0) code
  | 0xe3 => some do
      putShortInt (← st 0) code
      fpop
  | 0xe4 => some do
      fpush
      let tmp ← getBCD code
      setSt 0 tmp
  | 0xe5 => some do
      fpush
      let tmp ← getLonglongInt code
      setSt 0 tmp
  | 0xe6 => some do
      putBCD (← st 0) code
      fpop
  | 0xe7 => some do
      putLonglongInt (← st 0) code
      fpop
  | _ => none

/-- `switch (code >> 9)`: `code` has 11 bits, so that the last case is never taken. -/
def memoryOperand (code : Nat) (tmp : TempReal) : Emu TempReal :=
  match code >>> 9 with
  | 0 => getShortReal code
  | 1 => getLongInt code
  | 2 => getLongReal code
  | 4 => getShortInt code
  | _ => pure tmp

/-- `switch ((code>>3) & 0x27)`, and what follows it. -/
def arithmeticSwitch (code : Nat) (tmp : TempReal) : Emu Unit :=
  match code >>> 3 &&& 0x27 with
  | 0 => do
    let tmp := fadd tmp (← st 0)
    setSt 0 tmp
  | 1 => do
    let tmp ← assign (fmul tmp (← st 0)) tmp
    setSt 0 tmp
  | 2 => do modifySwd (fcom tmp (← st 0))
  | 3 => do
    modifySwd (fcom tmp (← st 0))
    fpop
  | 4 => do
    let tmp := tmp.negate
    let tmp := fadd tmp (← st 0)
    setSt 0 tmp
  | 5 => do
    setSt 0 (← st 0).negate
    let tmp := fadd tmp (← st 0)
    setSt 0 tmp
  | 6 => do
    let tmp ← assign (fdiv (← st 0) tmp) tmp
    setSt 0 tmp
  | 7 => do
    let tmp ← assign (fdiv tmp (← st 0)) tmp
    setSt 0 tmp
  | _ =>
    if code &&& 0x138 = 0x100 then do
      fpush
      setSt 0 tmp
    else mathAbort (signalBit sigfpe)

/-- `tmp` holds what the stack happened to hold before. -/
def execute (code : Nat) (tmp : TempReal) : Emu Unit :=
  match controlSwitch code with
  | some run => run
  | none =>
    match registerSwitch (code >>> 3) (code &&& 7) tmp with
    | some run => run
    | none =>
      match transferSwitch code with
      | some run => run
      | none => do
        let tmp ← memoryOperand code tmp
        arithmeticSwitch code tmp

/-! ## The instruction -/

def bswapw (x : BitVec 16) : BitVec 16 := x.extractLsb' 0 8 ++ x.extractLsb' 8 8

def busy (cwd swd : BitVec 32) : BitVec 32 := if cwd &&& swd &&& 0x3f ≠ 0 then swd ||| 0x8000 else swd &&& 0x7fff

def Machine.code (s : Machine) : BitVec 16 := bswapw (s.memory.word s.info.eip) &&& 0x7ff

namespace Machine

def begin (s : Machine) : Machine :=
  { s.setSwd (busy s.i387.cwd s.i387.swd) with info := { s.info with origEip := s.info.eip } }

def fetch (s : Machine) : Machine :=
  { s with
    i387 := { s.i387 with fip := s.info.eip, fcs := s.code ++ s.info.cs }
    info := { s.info with eip := s.info.eip + 2 } }

end Machine

def doEmu (tmp : TempReal) : Emu Unit := do
  modify Machine.begin
  let s ← get
  if s.info.cs ≠ 0x000f then throw .panicked
  modify Machine.fetch
  execute s.code.toNat tmp

def mathEmulate (tmp : TempReal) : Emu Unit := do
  if !(← get).usedMath then modify fun s => { s.setI387 s.i387.initialise with usedMath := true }
  doEmu tmp

end Linux012.Math
