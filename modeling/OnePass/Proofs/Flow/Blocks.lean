import OnePass.Proofs.Flow.Program
import OnePass.Proofs.Flow.Scratch

/-!
# Scratch cells of a program

The blocks of all functions, between the first jump and the start, make the whole code a row of
blocks. Functions begin with a block, jumps lead to blocks, and calls come back to one, so between
the write of a scratch cell and its use there is no way in and no way out. -/

namespace OnePass

open Planned (plain)

/-! ### Fragments at the edges of functions -/

/-- A number is in no cell. -/
theorem immediate_unread {S : Word → Prop} {is : List Instruction} {w : Word} (cell : Word)
    (_ : S cell) (heq : (Operand.immediate w).address? = some cell) : Written is cell := by
  cases heq

namespace Area.Sound

variable {A : Area} {fns : List (FnDecl × Frame)} {pc : Nat} (hA : A.Sound)
include hA

theorem framePointer_unread {is : List Instruction} (cell : Word) (hcell : A.layout.IsScratchCell cell)
    (heq : (Operand.direct A.layout.framePointer).address? = some cell) : Written is cell := by
  cases heq
  exact absurd hcell hA.framePointer_not_scratch

theorem stackPointer_unread {is : List Instruction} (cell : Word) (hcell : A.layout.IsScratchCell cell)
    (heq : (Operand.direct A.layout.stackPointer).address? = some cell) : Written is cell := by
  cases heq
  exact absurd hcell hA.stackPointer_not_scratch

/-- The code at the begin of a function. -/
theorem fed_prologue (size : Nat) : Fed A.layout.IsScratchCell
    (Fragment.prologue A.layout ++ [Fragment.moveStack A.layout size]) := by
  have hstack := hA.fed_stackField 0 (BitVec.ofNat 32 Record.savedStack)
  have hframe := hA.fed_stackField
    (Use.field A.layout 0 A.layout.stackPointer (BitVec.ofNat 32 Record.savedStack)).cells
    (BitVec.ofNat 32 Record.savedFrame)
  rw [Fragment.prologue, List.append_cons]
  refine ((((hstack.code.assign hA.stackPointer_unread hstack.operand).append hframe.code).assign
    hA.framePointer_unread fun cell hcell heq => ?_).assign hA.stackPointer_unread
      hA.framePointer_unread).binary hA.stackPointer_unread immediate_unread rfl
        hA.stackPointer_unread
  exact .right (hframe.operand cell hcell heq)

/-- The code at the end of a function: the jump goes through the cell that was written last. -/
theorem divided_epilogue :
    Divided A.layout.IsScratchCell fns pc (plain (Fragment.epilogue A.layout)) := by
  have hfield : ∀ n offset, (Use.field A.layout n A.layout.framePointer offset).Fed
    A.layout.IsScratchCell := fun n offset => .field hA.framePointer_not_scratch offset
  have hstack := hfield 0 (BitVec.ofNat 32 Record.savedStack)
  have hframe := hfield
    (Use.field A.layout 0 A.layout.framePointer (BitVec.ofNat 32 Record.savedStack)).cells
    (BitVec.ofNat 32 Record.savedFrame)
  have hrestored := ((hstack.code.assign hstack.operand hA.stackPointer_unread).append
    hframe.code).assign (fun cell hcell heq => .right (hframe.operand cell hcell heq))
      hA.framePointer_unread
  have hadded := hrestored.snoc (i := .add (.direct A.layout.stackPointer) (.immediate 4)
    (.direct (A.layout.scratchCell 2))) (.of_op .add rfl (by decide)) fun cell hcell hreads => ?_
  · have hloaded := hadded.snoc (i := .assign (.indirect (A.layout.scratchCell 2))
      (.direct (A.layout.scratchCell 2))) (.of_op .assign rfl (by decide)) fun cell hcell hreads => ?_
    · refine .block hloaded ?_ nofun
      intro cell hcell hreads
      cases Instruction.reads_jumpThrough hreads
      exact .last rfl
    · rcases Instruction.reads_assign hreads with heq | heq <;> cases heq
      exact .last rfl
  · rcases Instruction.reads_binary rfl hreads with heq | heq | heq <;> cases heq
    exact absurd hcell hA.stackPointer_not_scratch

/-- The code that starts a program is one block, with its jump. -/
theorem divided_start {f : FnDecl} {frame : Frame} (hf : (f, frame) ∈ fns) (dataEnd : Nat)
    {entry : Word} (hentry : entry = BitVec.ofNat 32 frame.entry) :
    Divided A.layout.IsScratchCell fns pc (plain (Fragment.start A.layout dataEnd pc entry)) := by
  have hreturn := hA.fed_stackField 0 (BitVec.ofNat 32 Record.returnAddress)
  rw [Fragment.start, List.append_cons _ _ [Instruction.jump _]]
  refine .jumping ((((Fed.nil.assign immediate_unread hA.stackPointer_unread).assign immediate_unread
    hA.framePointer_unread).append hreturn.code).assign immediate_unread
      fun cell hcell heq => ?_) hf hentry
  exact .right (hreturn.operand cell hcell heq)

end Area.Sound

/-! ### Functions -/

variable {fns : List (FnDecl × Frame)} {l : Layout} {gs : List (VarDecl × Nat)}

/-- The code of a function: its blocks, and jumps that are calls or lead to places behind its
    entry. -/
structure Secluded (l : Layout) (fns : List (FnDecl × Frame)) (frame : Frame)
    (is : List Instruction) : Prop where
  nonempty : is ≠ []
  divided : Divided l.IsScratchCell fns frame.entry (plain is)
  confined : Confined fns (frame.entry + 1) (frame.entry + is.length - 1) frame.entry (plain is)

theorem FnDecl.Woven.secluded {f : FnDecl} {is : List Instruction} {frame : Frame}
    (h : f.Woven l gs fns frame is) (hA : (l.file gs).Sound) : Secluded l fns frame is := by
  refine ⟨h.nonempty, ?_, h.confined⟩
  obtain ⟨places, ps, rfl, -, -, hwoven⟩ := h.code
  have hrecord := hA.withRecord places frame.size
  have hprologue : Divided l.IsScratchCell fns frame.entry _ :=
    .straight (hrecord.fed_prologue frame.size)
  obtain ⟨cuts, hcut, haims⟩ := hwoven.divided hrecord
  rw [Fragment.function, Planned.plain_append, Planned.plain_append]
  exact (hprologue.append ⟨cuts, hcut.finish _, haims.finish hcut.last⟩).append
    hrecord.divided_epilogue

/-! ### Functions in a row -/

namespace Tiled

variable {P : FnDecl → Frame → List Instruction → Prop} {pc : Nat} {code is : List Instruction}

theorem le_entry (h : Tiled P pc is fns) : ∀ x ∈ fns, pc ≤ x.2.entry := by
  induction h with
  | nil => exact nofun
  | cons hentry _ _ ih =>
    rename_i pc f frame is js fns
    refine List.forall_mem_cons.mpr ⟨Nat.le_of_eq hentry.symm, fun x hx => ?_⟩
    exact Nat.le_of_add_right_le (ih x hx)

/-- Every position is in the code of one function, and no other function begins there. -/
theorem exists_piece_at (h : Tiled P pc is fns) (hcode : CodeAt code pc is) {k : Nat}
    (hk : k < is.length) : ∃ f frame piece, (f, frame) ∈ fns ∧ P f frame piece ∧
      CodeAt code frame.entry piece ∧ frame.entry ≤ pc + k ∧ pc + k < frame.entry + piece.length ∧
        ∀ x ∈ fns, x.2.entry ≤ frame.entry ∨ frame.entry + piece.length ≤ x.2.entry := by
  induction h generalizing k with
  | nil => cases hk
  | cons hentry hP hrest ih =>
    rename_i pc f frame is js fns
    subst hentry
    have hlater := hrest.le_entry
    by_cases hlt : k < is.length
    · refine ⟨f, frame, is, List.mem_cons_self .., hP, hcode.left, Nat.le_add_right .., by omega,
        List.forall_mem_cons.mpr ⟨.inl (Nat.le_refl _), fun x hx => .inr (hlater x hx)⟩⟩
    · rw [List.length_append] at hk
      obtain ⟨g, next, piece, hmem, hpiece, hat, hlo, hhi, hapart⟩ :=
        ih hcode.right (k := k - is.length) (by omega)
      have hle : frame.entry + is.length ≤ next.entry := hlater _ hmem
      exact ⟨g, next, piece, List.mem_cons_of_mem _ hmem, hpiece, hat, by omega, by omega,
        List.forall_mem_cons.mpr ⟨.inl (Nat.le_of_add_right_le hle), hapart⟩⟩

/-- The blocks of all functions, in a row. -/
theorem divided {all : List (FnDecl × Frame)}
    (h : Tiled (fun _ frame is => Secluded l all frame is) pc is fns) :
    ∃ cuts, Cut l.IsScratchCell cuts pc (plain is) ∧ Aims all cuts (plain is) ∧
      ∀ x ∈ fns, cuts x.2.entry := by
  induction h with
  | nil => exact ⟨_, .nil, fun _ hi => (nomatch hi), nofun⟩
  | cons hentry hP _ ih =>
    subst hentry
    obtain ⟨cuts, hcut, haims⟩ := hP.divided
    obtain ⟨cuts', hcut', haims', hentries⟩ := ih
    rw [Planned.plain_append]
    refine ⟨_, hcut.next (by rw [Planned.length_plain]) hcut',
      (haims.mono fun _ => .inl).append (haims'.mono fun _ => .inr),
      List.forall_mem_cons.mpr ⟨.inl hcut.first, fun x hx => .inr (hentries x hx)⟩⟩

end Tiled

/-! ### Return addresses -/

theorem Instruction.jump_inj {q r : Nat} (hq : q < 4294967296) (hr : r < 4294967296)
    (h : Instruction.jump q = .jump r) : q = r := by
  have htarget := congrArg Instruction.jumpTarget? h
  have hnat : (BitVec.ofNat 32 q).toNat = (BitVec.ofNat 32 r).toNat := Option.some.inj htarget
  rw [BitVec.toNat_ofNat, BitVec.toNat_ofNat] at hnat
  omega

/-- A jump to a function is a call: the position behind it was stored right before. -/
theorem Secluded.calls {frame : Frame} {is : List Instruction} (h : Secluded l fns frame is)
    (hlength : frame.entry + is.length ≤ 4294967296) {x : FnDecl × Frame} (hx : x.2.entry < 4294967296)
    (hapart : x.2.entry ≤ frame.entry ∨ frame.entry + is.length ≤ x.2.entry) {k : Nat}
    (hk : is[k]? = some (.jump x.2.entry)) : ∃ k' dst, k = k' + 1 ∧
      is[k']? = some (.assign (.immediate (BitVec.ofNat 32 (frame.entry + k + 1))) dst) := by
  have hpos := List.length_pos_iff.mpr h.nonempty
  have hplain : ∀ {m : Nat} {i : Instruction}, (plain is)[m]? = some (.code i) ↔ is[m]? = some i := by
    intro m i
    rw [plain, List.getElem?_map, Option.map_eq_some_iff]
    refine ⟨?_, fun hi => ⟨i, hi, rfl⟩⟩
    rintro ⟨_, hi, heq⟩
    exact Planned.code.inj heq ▸ hi
  rcases h.confined k _ (hplain.mpr hk) with hstays | ⟨g, callee, k', dst, hg, -, rfl, hassign⟩
  · -- a jump within the function leads to none of the entries
    generalize hi : Instruction.jump x.2.entry = i at hstays
    cases hstays with
    | straight hstraight =>
      rw [← hi] at hstraight
      cases hstraight
    | jump hlo hhi =>
      have := Instruction.jump_inj hx (by omega) hi
      omega
    | jumpIfFalse => cases hi
  · exact ⟨k', dst, rfl, hplain.mp hassign⟩

/-- What is stored right before a jump to a function. -/
def IsReturnAddress (code : List Instruction) (frames : List Frame) (r : Nat) : Prop :=
  ∃ k address dst, ∃ frame ∈ frames, code[k]? = some (.assign (.immediate address) dst) ∧
    code[k + 1]? = some (.jump frame.entry) ∧ address.toNat = r

/-! ### Programs -/

/-- The whole code of a program is cut into blocks. Jumps lead to cuts, functions begin at cuts, and
    return addresses are the positions behind calls. -/
structure Blocked (l : Layout) (cuts : Nat → Prop) (code : List Instruction) (frames : List Frame) :
    Prop where
  cut : Cut l.IsScratchCell cuts 0 (plain code)
  targets : ∀ i ∈ code, ∀ target, i.jumpTarget? = some target →
    ∃ q, cuts q ∧ target = (BitVec.ofNat 32 q).toNat
  entries : ∀ frame ∈ frames, cuts frame.entry
  returns : ∀ k address dst, ∀ frame ∈ frames,
    code[k]? = some (.assign (.immediate address) dst) → code[k + 1]? = some (.jump frame.entry) →
      address = BitVec.ofNat 32 (k + 2)

/-- In code that is put together from functions and a start, every jump to a function is a call. -/
theorem Tiled.returns {is : List Instruction} {dataEnd : Nat} {main : Word}
    (h : Tiled (fun _ frame is => Secluded l fns frame is) 1 is fns) {code : List Instruction}
    (hcode : code = [.jump (1 + is.length)] ++ is ++ Fragment.start l dataEnd (1 + is.length) main)
    (hlength : code.length ≤ 4294967296) {k : Nat} {address : Word} {dst : Operand}
    {x : FnDecl × Frame} (hx : x ∈ fns) (hk : code[k]? = some (.assign (.immediate address) dst))
    (hjump : code[k + 1]? = some (.jump x.2.entry)) : address = BitVec.ofNat 32 (k + 2) := by
  have hat : CodeAt code 1 is := ⟨_, _, hcode, rfl⟩
  have hentry : x.2.entry < 4294967296 := by
    obtain ⟨piece, hpiece, hpat, -⟩ := h.of_mem hat hx
    have := hpat.length_le
    have := List.length_pos_iff.mpr hpiece.nonempty
    omega
  by_cases hinside : k < is.length
  · obtain ⟨f, frame, piece, -, hpiece, hpat, hlo, hhi, hapart⟩ := h.exists_piece_at hat hinside
    have hend := hpat.length_le
    obtain ⟨n, hn⟩ := Nat.exists_eq_add_of_le hlo
    rw [Nat.add_comm k 1, hn, hpat.getElem? (by omega)] at hjump
    obtain ⟨n', dst', rfl, hstored⟩ := hpiece.calls (by omega) hentry (hapart x hx) hjump
    obtain rfl : k = frame.entry + n' := by omega
    rw [hpat.getElem? (by omega), hstored] at hk
    injection hk with hk
    injection hk with _ hk
    cases hk
    rfl
  · -- the last jump of the start
    have hstart : CodeAt code (1 + is.length) (Fragment.start l dataEnd (1 + is.length) main) :=
      ⟨[.jump (1 + is.length)] ++ is, [], by rw [List.append_nil, hcode], Nat.add_comm ..⟩
    obtain ⟨n, rfl⟩ := Nat.exists_eq_add_of_le (Nat.le_of_not_lt hinside)
    rw [Fragment.start_eq] at hstart
    have hn : n < 5 := by
      obtain ⟨hlt, -⟩ := List.getElem?_eq_some_iff.mp hjump
      rw [hcode, Fragment.start_eq] at hlt
      simp only [List.length_append, List.length_cons, List.length_nil] at hlt
      omega
    have hindex : is.length + n + 1 = 1 + is.length + n := by omega
    rw [hindex, hstart.getElem? hn] at hjump
    have hop := congrArg (Option.map (·.op)) hjump
    match n, hn, hk, hop with
    | 0, _, _, hop | 1, _, _, hop | 2, _, _, hop | 3, _, _, hop => cases hop
    | 4, _, hk, _ =>
      have hstored := hstart.tail.tail.tail.head
      have hindex : 1 + is.length + 1 + 1 + 1 = is.length + 4 := by omega
      rw [hindex, hk] at hstored
      injection hstored with hstored
      injection hstored with _ hstored
      cases hstored
      have hsum : is.length + 4 + 2 = 1 + is.length + 5 := by omega
      rw [hsum]

theorem Program.Translates.blocked {p : Program} {code : List Instruction} {t : SymbolTable}
    {frames : List Frame} (h : p.Translates l code t frames) (hg : p.Grammatical) (hl : l.Apart)
    (hslots : 3 ≤ l.scratchSlots.toNat) (hlength : code.length ≤ 4294967296) :
    ∃ cuts, Blocked l cuts code frames := by
  cases h with
  | intro hdecls hmain =>
    rename_i is main
    obtain ⟨hA, -, -⟩ := hdecls.sound hl hslots
    let fns := (Decl.functions p.decls).zip frames
    obtain ⟨htiled, hcount, hlinked⟩ := hdecls.tiled_woven
      (P := fun _ frame is => Secluded l fns frame is) hg rfl fun _ _ _ h => h.secluded hA
    have hframes : ∀ frame ∈ frames, ∃ x ∈ fns, x.2 = frame := by
      intro frame hframe
      rw [← List.map_snd_zip (Nat.le_of_eq hcount.symm)] at hframe
      exact List.mem_map.mp hframe
    obtain ⟨f, frame, hf, -, -, hvalue⟩ := hlinked.main hmain
    obtain ⟨cuts, hcut, haims, hentries⟩ := htiled.divided
    obtain ⟨cuts', hcut', haims'⟩ : Divided l.IsScratchCell fns (1 + is.length) _ :=
      hA.divided_start hf t.dataEnd hvalue
    have hfirst : Cut l.IsScratchCell _ 0 _ := .jump (1 + is.length)
    have hcode := (hfirst.next (Nat.zero_add 1).symm hcut).next (by
      simp only [List.length_append, Planned.length_plain, List.length_cons, List.length_nil]
      omega) hcut'
    rw [← Planned.plain_append, ← Planned.plain_append] at hcode
    refine ⟨_, hcode, fun i hi target htarget => ?_, fun frame hframe => ?_,
      fun k address dst frame hframe => ?_⟩
    · have hjump : Aims fns (fun q => ((q = 0 ∨ q = 0 + 1) ∨ cuts q) ∨ cuts' q)
        (plain [.jump (1 + is.length)]) := .jump (.inl (.inr hcut'.first))
      have hall := (hjump.append (haims.mono fun _ hq => .inl (.inr hq))).append
        (haims'.mono fun _ => .inr)
      rw [← Planned.plain_append, ← Planned.plain_append] at hall
      obtain ⟨q, hq, hcut | ⟨x, hx, rfl⟩⟩ := hall i (List.mem_map_of_mem hi) target htarget
      · exact ⟨q, hcut, hq⟩
      · exact ⟨x.2.entry, .inl (.inr (hentries x hx)), hq⟩
    · obtain ⟨x, hx, rfl⟩ := hframes frame hframe
      exact .inl (.inr (hentries x hx))
    · obtain ⟨x, hx, rfl⟩ := hframes frame hframe
      exact htiled.returns rfl hlength hx

/-- Between two positions control can neither leave the code nor enter it. -/
structure Uninterrupted (code : List Instruction) (frames : List Frame) (q p : Nat) : Prop where
  falls : ∀ r, q ≤ r → r < p → ∀ i, code[r]? = some i → i.op ≠ .jp ∧ i.op ≠ .jpf
  targets : ∀ r, q < r → r ≤ p → ∀ i ∈ code, i.jumpTarget? ≠ some r
  entries : ∀ r, q < r → r ≤ p → ∀ frame ∈ frames, frame.entry ≠ r
  returns : ∀ r, q < r → r ≤ p → ¬ IsReturnAddress code frames r

/-- A block is not interrupted. -/
theorem Blocked.uninterrupted {cuts : Nat → Prop} {code : List Instruction} {frames : List Frame}
    (h : Blocked l cuts code frames) (hlength : code.length ≤ 4294967296) {cell : Word} {q p : Nat}
    (hfeeds : Feeds cuts 0 (plain code) cell q p) : Uninterrupted code frames q p := by
  have hfalls : ∀ r, q ≤ r → r < p → ∀ i, code[r]? = some i → i.Falls := by
    intro r hqr hrp i hi
    obtain ⟨x, hx, hfalls⟩ := hfeeds.falls r hqr hrp
    rw [plain, List.getElem?_map, hi] at hx
    cases hx
    exact hfalls
  have huncut : ∀ r, q < r → r ≤ p → ¬ cuts r := by
    intro r hqr hrp
    have := hfeeds.uncut r hqr hrp
    rwa [Nat.zero_add] at this
  refine ⟨hfalls, ?_, ?_, ?_⟩
  · intro r hqr hrp i hi htarget
    obtain ⟨s, hs, heq⟩ := h.targets i hi r htarget
    have hle := (h.cut.within s hs).2
    rw [Planned.length_plain] at hle
    rw [BitVec.toNat_ofNat] at heq
    obtain rfl : r = s := by omega
    exact huncut r hqr hrp hs
  · rintro r hqr hrp frame hframe rfl
    exact huncut _ hqr hrp (h.entries frame hframe)
  · rintro r hqr hrp ⟨k, address, dst, frame, hframe, hk, hjump, rfl⟩
    obtain rfl := h.returns k address dst frame hframe hk hjump
    obtain ⟨hlt, -⟩ := List.getElem?_eq_some_iff.mp hjump
    rw [BitVec.toNat_ofNat] at hqr hrp
    -- the call itself would stand in between
    exact (hfalls (k + 1) (by omega) (by omega) _ hjump).1 rfl

/-- In compiled code, every instruction that depends on a scratch cell finds there what was written
    in the same block: on the way from the write there are no jumps, and no other way leads there.
    Positions are words, so the code must not be longer than there are words. -/
theorem compile_scratch_stays_in_block (layout : Layout) (source : String) (out : Output)
    (hlayout : layout.flaw? = none) (hcompile : compile layout source = .ok out)
    (hdiagnostics : out.diagnostics = []) (hlength : out.instructions.length ≤ 4294967296) :
    ∀ p i cell, out.instructions[p]? = some i → layout.IsScratchCell cell → i.Reads cell →
      ∃ q w, q < p ∧ out.instructions[q]? = some w ∧ w.Writes cell ∧
        Uninterrupted out.instructions out.frames q p := by
  obtain ⟨hslots, p, code, t, frames, htext, htranslates, rfl⟩ :=
    translates_of_compile hcompile hdiagnostics
  obtain ⟨cuts, hblocked⟩ := htranslates.blocked htext.grammatical
    (Layout.apart_of_flaw? hlayout) hslots hlength
  intro p i cell hp hcell hreads
  obtain ⟨q, hfeeds⟩ := hblocked.cut.reads p i (by rw [plain, List.getElem?_map, hp]; rfl) cell hcell
    hreads
  obtain ⟨w, hw, hwrites⟩ := hfeeds.writes
  rw [plain, List.getElem?_map, Option.map_eq_some_iff] at hw
  obtain ⟨x, hx, heq⟩ := hw
  cases heq
  exact ⟨q, w, hfeeds.lt, hx, hwrites, hblocked.uninterrupted hlength hfeeds⟩

/-- The condition of a loop, which is the result of a call. -/
theorem compile_scratch_stays_in_block_recursion :
    let source := "int f(int n)\x7brepeat if(n<1)break;until(f(n-1))return n;\x7dvoid main(void)\x7bf(3);\x7d"
    ({} : Layout).flaw? = none ∧ ({} : Layout).IsScratchCell 208 ∧
      ∃ out, compile {} source = .ok out ∧ out.diagnostics = [] ∧ out.instructions.length = 61 ∧
        out.instructions[25]? = some (.jumpIfFalse (.indirect 208) 7) ∧
        (Instruction.jumpIfFalse (.indirect 208) 7).Reads 208 ∧
        ∃ q w, q < 25 ∧ out.instructions[q]? = some w ∧ w.Writes 208 ∧
          Uninterrupted out.instructions out.frames q 25 := by
  intro source
  obtain ⟨out, hout, hdiagnostics, hlength, hjump⟩ :
      ∃ out, out ∈ compileWithin? 400 {} source ∧ out.diagnostics = [] ∧
        out.instructions.length = 61 ∧
        out.instructions[25]? = some (.jumpIfFalse (.indirect 208) 7) := by
    decide +kernel
  have hcompile := compile_of_within hout
  have hscratch : ({} : Layout).IsScratchCell 208 := ⟨0, by decide, by decide⟩
  have hreads : (Instruction.jumpIfFalse (.indirect 208) 7).Reads 208 :=
    .inr (List.mem_singleton_self _)
  refine ⟨by decide, hscratch, out, hcompile, hdiagnostics, hlength, hjump, hreads, ?_⟩
  exact compile_scratch_stays_in_block {} source out (by decide) hcompile hdiagnostics (by omega) 25 _
    208 hjump hscratch hreads

end OnePass
