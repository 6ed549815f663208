import OnePass.Proofs.Flow.Jumps
import OnePass.Proofs.Storage.Program

/-!
# The shape of compiled code

A compiled program is a jump to its start, the code of its functions one after the other, and its
start, which calls the main function. The code of a function can be left only by a call or at its
end, where it goes back to the caller. -/

namespace OnePass

open Planned (plain)

variable {fns : List (FnDecl × Frame)} {code is : List Instruction} {l : Layout}

/-! ### Functions -/

/-- What is known about the jumps in the code of a function. -/
structure Enclosed (fns : List (FnDecl × Frame)) (f : FnDecl) (frame : Frame)
    (is : List Instruction) : Prop where
  name : frame.name = f.name.lexeme
  params : frame.params = f.params.toList.map Param.ty
  returns : ∃ c, is.getLast? = some (.jumpThrough (.indirect c))
  confined : Confined fns frame.entry (frame.entry + is.length - 1) frame.entry (plain is)

/-- Jumps in the code of a function are calls, or lead to places behind its entry. -/
theorem FnDecl.Woven.confined {gs : List (VarDecl × Nat)} {f : FnDecl} {frame : Frame}
    (h : f.Woven l gs fns frame is) :
    Confined fns (frame.entry + 1) (frame.entry + is.length - 1) frame.entry (plain is) := by
  obtain ⟨places, ps, rfl, -, -, hwoven⟩ := h.code
  have hlength : (Fragment.epilogue l).length = 7 := rfl
  simp only [Fragment.function, Planned.plain_append]
  refine (((Confined.straight Fragment.straight_prologue).append ?_).append ?_).append
    (.straight Fragment.straight_epilogue)
  · refine .straight fun i hi => ?_
    obtain rfl := List.mem_singleton.mp hi
    rfl
  · simp only [List.length_append, Planned.length_plain, List.length_map, List.length_cons,
      List.length_nil]
    refine (hwoven.confined ?_ ?_).finish ?_ ?_ <;> omega

/-- The code of a function is left by calls or at its end. -/
theorem FnDecl.Woven.enclosed {gs : List (VarDecl × Nat)} {f : FnDecl} {frame : Frame}
    (h : f.Woven l gs fns frame is) (hparams : frame.params = f.params.toList.map Param.ty) :
    Enclosed fns f frame is := by
  refine ⟨h.name, hparams, ⟨l.scratchCell 2, ?_⟩, h.confined.mono (Nat.le_succ _)⟩
  obtain ⟨places, ps, rfl, -⟩ := h.code
  rw [Fragment.function, List.getLast?_append, Fragment.epilogue_eq]
  rfl

/-- What a jump within bounds leads to. -/
theorem Instruction.StaysWithin.target {lo hi : Nat} {i : Instruction} (h : i.StaysWithin lo hi)
    (hhi : hi < 2147483648) {target : Nat} (htarget : i.jumpTarget? = some target) :
    lo ≤ target ∧ target ≤ hi := by
  cases h with
  | straight h =>
    rw [h] at htarget
    cases htarget
  | jump hlo hle =>
    rename_i q
    obtain rfl : (BitVec.ofNat 32 q).toNat = target := Option.some.inj htarget
    rw [Word.toNat_ofNat (by omega)]
    exact ⟨hlo, hle⟩
  | jumpIfFalse hlo hle =>
    rename_i q
    obtain rfl : (BitVec.ofNat 32 q).toNat = target := Option.some.inj htarget
    rw [Word.toNat_ofNat (by omega)]
    exact ⟨hlo, hle⟩

theorem Instruction.jumpTarget?_jump {q : Nat} (hq : q < 2147483648) :
    (Instruction.jump q).jumpTarget? = some q := congrArg some (Word.toNat_ofNat hq)

namespace Enclosed

variable {f : FnDecl} {frame : Frame} (h : Enclosed fns f frame is)
include h

theorem length_pos : 0 < is.length := by
  obtain ⟨c, hlast⟩ := h.returns
  exact List.length_pos_of_mem (List.mem_of_getLast? hlast)

/-- A jump leads back into the function, or calls. -/
theorem jumps (hcode : CodeAt code frame.entry is) (hlength : code.length < 2147483648)
    (hentries : ∀ x ∈ fns, x.2.entry < code.length) {k target : Nat} {i : Instruction}
    (hk : is[k]? = some i) (htarget : i.jumpTarget? = some target) :
    (frame.entry ≤ target ∧ target < frame.entry + is.length) ∨
      ∃ x ∈ fns, i = .jump x.2.entry ∧ 0 < k ∧ ∃ dst, code[frame.entry + k - 1]? =
        some (.assign (.immediate (BitVec.ofNat 32 (frame.entry + k + 1))) dst) := by
  have hpos := h.length_pos
  have hend := hcode.length_le
  have hplain : (plain is)[k]? = some (.code i) := by rw [plain, List.getElem?_map, hk]; rfl
  rcases h.confined k i hplain with hstays | ⟨g, callee, k', dst, hg, rfl, rfl, hassign⟩
  · have := hstays.target (by omega) htarget
    omega
  · refine .inr ⟨_, hg, ?_, by omega, dst, ?_⟩
    · have : callee.entry < code.length := hentries _ hg
      rw [Word.toNat_ofNat (by omega)]
    · obtain ⟨hlt, -⟩ := List.getElem?_eq_some_iff.mp hk
      have hbefore : frame.entry + (k' + 1) - 1 = frame.entry + k' := by omega
      rw [hbefore, hcode.getElem? (by omega)]
      rw [plain, List.getElem?_map, Option.map_eq_some_iff] at hassign
      obtain ⟨i, hi, hcase⟩ := hassign
      rw [hi, Planned.code.inj hcase]

end Enclosed

/-! ### Programs -/

/-- The shape of code: a jump to the start, functions in a row, and the start. -/
structure Structured (code : List Instruction) (frames : List Frame) (start : Nat) : Prop where
  nonempty : code ≠ []
  /-- Jumps lead to instructions. -/
  bounded : ∀ i ∈ code, ∀ target, i.jumpTarget? = some target → target < code.length
  begins : code[0]? = some (.jump start)
  /-- The first function stands right behind the first jump. -/
  first : frames.head?.map (·.entry) = some 1
  ordered : (frames.map (·.entry) ++ [start]).Pairwise (· < ·)
  /-- The code of a function ends with its return. -/
  returns : ∀ x ∈ codeRanges start frames,
    ∃ c, code[x.2 - 1]? = some (.jumpThrough (.indirect c))
  /-- Jumps in the code of a function stay in it, or call a function after the position behind
      them was stored. -/
  stays : ∀ x ∈ codeRanges start frames, ∀ pc i target, x.1.entry ≤ pc → pc < x.2 →
    code[pc]? = some i → i.jumpTarget? = some target → (x.1.entry ≤ target ∧ target < x.2) ∨
      ∃ callee ∈ frames, i = .jump callee.entry ∧ x.1.entry < pc ∧
        ∃ dst, code[pc - 1]? = some (.assign (.immediate (BitVec.ofNat 32 (pc + 1))) dst)
  /-- The start ends with a call of the main function, which returns to the end of the code. -/
  ends : ∃ main ∈ frames, main.name = "main" ∧ main.params = [] ∧ start + 2 ≤ code.length ∧
    code[code.length - 1]? = some (.jump main.entry) ∧
    ∃ dst, code[code.length - 2]? =
      some (.assign (.immediate (BitVec.ofNat 32 code.length)) dst)

/-- The function that a program starts with. -/
theorem SymbolTable.Linked.main {t : SymbolTable} (ht : t.Linked fns) {main : Symbol}
    (h : (t.find? "main").filter Gen.isMain = some main) :
    ∃ f frame, (f, frame) ∈ fns ∧ f.name.lexeme = "main" ∧ f.params.toList = [] ∧
      main.value = BitVec.ofNat 32 frame.entry := by
  obtain ⟨hfind, hmain⟩ := Option.filter_eq_some_iff.mp h
  simp only [Gen.isMain, Bool.and_eq_true, beq_iff_eq] at hmain
  obtain ⟨scope, hscope, hmem, hname⟩ := SymbolTable.mem_of_find? hfind
  rcases ht.file main (ht.mem_globals hscope hmem hmain.1.1.1) hmain.1.1.1 with rfl | hlinked
  · exact absurd hname (by decide)
  · obtain ⟨f, frame, hf, rfl⟩ := hlinked
    exact ⟨f, frame, hf, hname, List.map_eq_nil_iff.mp (Option.some.inj hmain.2), rfl⟩

theorem Fragment.start_split (l : Layout) (dataEnd pc : Nat) (entry : Word) :
    ∃ first dst, start l dataEnd pc entry =
      first ++ [.assign (.immediate (BitVec.ofNat 32 (pc + first.length + 2))) dst, .jump entry.toNat]
        ∧ ∀ i ∈ first, i.IsStraight := by
  refine ⟨[_, _, _], _, start_eq l dataEnd pc entry, fun i hi => ?_⟩
  simp only [List.mem_cons, List.not_mem_nil, or_false] at hi
  rcases hi with rfl | rfl | rfl <;> rfl

/-- How the code of a program is put together, from functions and a start. -/
structure Assembled (fns : List (FnDecl × Frame)) (is first : List Instruction) (main : Frame)
    (code : List Instruction) : Prop where
  code_eq : ∃ dst, code = [.jump (1 + is.length)] ++ is ++
    (first ++ [.assign (.immediate (BitVec.ofNat 32 code.length)) dst, .jump main.entry])
  tiled : Tiled (Enclosed fns) 1 is fns
  straight : ∀ i ∈ first, i.IsStraight
  main_mem : ∃ f, (f, main) ∈ fns ∧ f.name.lexeme = "main" ∧ f.params.toList = []
  length_lt : code.length < 2147483648

namespace Assembled

variable {first : List Instruction} {main : Frame} (h : Assembled fns is first main code)
include h

theorem codeAt : CodeAt code 1 is := by
  obtain ⟨dst, hcode⟩ := h.code_eq
  exact ⟨_, _, hcode, rfl⟩

theorem length_eq : code.length = 1 + is.length + first.length + 2 := by
  obtain ⟨dst, hcode⟩ := h.code_eq
  have hlength := congrArg List.length hcode
  simp only [List.length_append, List.length_cons, List.length_nil] at hlength
  omega

theorem entry_lt : ∀ x ∈ fns, x.2.entry < code.length := by
  rintro ⟨f, frame⟩ hf
  obtain ⟨piece, hpiece, hat, -⟩ := h.tiled.of_mem h.codeAt hf
  have := hpiece.length_pos
  have := hat.length_le
  change frame.entry < code.length
  omega

theorem bounded {i : Instruction} (hi : i ∈ code) {target : Nat}
    (htarget : i.jumpTarget? = some target) : target < code.length := by
  have hlength := h.length_lt
  -- a jump to a known instruction
  have hjump : ∀ {q}, q < code.length → (Instruction.jump q).jumpTarget? = some target →
      target < code.length := by
    intro q hq hjump
    rw [Instruction.jumpTarget?_jump (by omega)] at hjump
    cases hjump
    exact hq
  obtain ⟨dst, hcode⟩ := h.code_eq
  rw [hcode, List.mem_append, List.mem_append, List.mem_singleton] at hi
  rcases hi with (rfl | hi) | hi
  · have := h.length_eq
    exact hjump (by omega) htarget
  · obtain ⟨f, frame, piece, -, hpiece, hat, hi⟩ := h.tiled.exists_piece h.codeAt hi
    obtain ⟨k, hk⟩ := List.mem_iff_getElem?.mp hi
    have := hat.length_le
    rcases hpiece.jumps hat hlength h.entry_lt hk htarget with hstays | ⟨x, hx, rfl, -⟩
    · omega
    · exact hjump (h.entry_lt x hx) htarget
  · simp only [List.mem_append, List.mem_cons, List.not_mem_nil, or_false] at hi
    rcases hi with hi | rfl | rfl
    · rw [h.straight i hi] at htarget
      cases htarget
    · cases htarget
    · obtain ⟨f, hf, -⟩ := h.main_mem
      exact hjump (h.entry_lt _ hf) htarget

theorem returns {x : Frame × Nat} (hx : x ∈ codeRanges (1 + is.length) (fns.map (·.2))) :
    ∃ c, code[x.2 - 1]? = some (.jumpThrough (.indirect c)) := by
  obtain ⟨f, piece, -, hpiece, hat, hstop⟩ := h.tiled.of_mem_codeRanges h.codeAt x hx
  obtain ⟨c, hreturn⟩ := hpiece.returns
  have hpos := hpiece.length_pos
  have hindex : x.2 - 1 = x.1.entry + (piece.length - 1) := by omega
  rw [hindex, hat.getElem? (by omega), ← List.getLast?_eq_getElem?]
  exact ⟨c, hreturn⟩

theorem stays {x : Frame × Nat} (hx : x ∈ codeRanges (1 + is.length) (fns.map (·.2)))
    {pc target : Nat} {i : Instruction} (hlo : x.1.entry ≤ pc) (hhi : pc < x.2)
    (hi : code[pc]? = some i) (htarget : i.jumpTarget? = some target) :
    (x.1.entry ≤ target ∧ target < x.2) ∨
      ∃ callee ∈ fns.map (·.2), i = .jump callee.entry ∧ x.1.entry < pc ∧
        ∃ dst, code[pc - 1]? = some (.assign (.immediate (BitVec.ofNat 32 (pc + 1))) dst) := by
  obtain ⟨f, piece, -, hpiece, hat, hstop⟩ := h.tiled.of_mem_codeRanges h.codeAt x hx
  obtain ⟨k, rfl⟩ := Nat.exists_eq_add_of_le hlo
  rw [hat.getElem? (by omega)] at hi
  rcases hpiece.jumps hat h.length_lt h.entry_lt hi htarget with hinside | ⟨y, hy, rfl, hk, hassign⟩
  · exact .inl ⟨hinside.1, hstop ▸ hinside.2⟩
  · exact .inr ⟨y.2, List.mem_map_of_mem hy, rfl, by omega, hassign⟩

theorem ends : ∃ frame ∈ fns.map (·.2), frame.name = "main" ∧ frame.params = [] ∧
    1 + is.length + 2 ≤ code.length ∧ code[code.length - 1]? = some (.jump frame.entry) ∧
    ∃ dst, code[code.length - 2]? =
      some (.assign (.immediate (BitVec.ofNat 32 code.length)) dst) := by
  obtain ⟨f, hf, hname, hparams⟩ := h.main_mem
  obtain ⟨piece, hpiece, -⟩ := h.tiled.of_mem h.codeAt hf
  obtain ⟨dst, hcode⟩ := h.code_eq
  have hlength := h.length_eq
  have hlast : CodeAt code (1 + is.length + first.length) _ :=
    ⟨[.jump (1 + is.length)] ++ is ++ first, [],
      by rw [List.append_nil, List.append_assoc]; exact hcode,
      by simp only [List.length_append, List.length_singleton]⟩
  have hjump : code.length - 1 = 1 + is.length + first.length + 1 := by omega
  have hassign : code.length - 2 = 1 + is.length + first.length := by omega
  refine ⟨main, List.mem_map_of_mem hf, hpiece.name.trans hname, ?_, by omega, ?_, dst, ?_⟩
  · rw [hpiece.params, hparams]
    rfl
  · rw [hjump]
    exact hlast.tail.head
  · rw [hassign]
    exact hlast.head

/-- Code that is put together so is structured. -/
theorem structured : Structured code (fns.map (·.2)) (1 + is.length) where
  nonempty := by
    have := h.length_eq
    exact List.ne_nil_of_length_pos (by omega)
  bounded _ hi _ htarget := h.bounded hi htarget
  begins := by
    obtain ⟨dst, hcode⟩ := h.code_eq
    rw [hcode]
    rfl
  first := by
    obtain ⟨f, hf, -⟩ := h.main_mem
    exact h.tiled.head_entry (List.ne_nil_of_mem hf)
  ordered := (h.tiled.pairwise_entries fun _ _ _ hpiece =>
    List.length_pos_iff.mp hpiece.length_pos).1
  returns _ hx := h.returns hx
  stays _ hx _ _ _ hlo hhi hi htarget := h.stays hx hlo hhi hi htarget
  ends := h.ends

end Assembled

/-- A translation is put together so. -/
theorem Program.Translates.assembled {p : Program} {t : SymbolTable} {frames : List Frame}
    (h : p.Translates l code t frames) (hg : p.Grammatical) (hlength : code.length < 2147483648) :
    ∃ fns is first main, fns.map (·.2) = frames ∧ Assembled fns is first main code := by
  cases h with
  | intro hdecls hmain =>
    rename_i is main
    obtain ⟨htiled, hcount, ht⟩ := hdecls.tiled_woven (P := Enclosed _) hg rfl
      fun hf _ _ h => h.enclosed hf.frame_eq.2.2
    obtain ⟨f, frame, hf, hname, hparams, hvalue⟩ := ht.main hmain
    obtain ⟨first, dst, hstart, hstraight⟩ :=
      Fragment.start_split l t.dataEnd (1 + is.length) main.value
    have hentry : main.value.toNat = frame.entry := by
      obtain ⟨piece, -, hat, -⟩ := htiled.of_mem ⟨[.jump (1 + is.length)],
        Fragment.start l t.dataEnd (1 + is.length) main.value, rfl, rfl⟩ hf
      have := hat.length_le
      rw [hvalue, Word.toNat_ofNat (by omega)]
    refine ⟨_, is, first, frame, List.map_snd_zip (Nat.le_of_eq hcount.symm),
      ⟨dst, ?_⟩, htiled, hstraight, ⟨f, hf, hname, hparams⟩, hlength⟩
    rw [hstart, hentry]
    simp [Nat.add_comm, Nat.add_assoc, Nat.add_left_comm]

/-- Compiled code is a jump to its start, functions in a row whose jumps stay in them or call, and
    a start that calls the main function. -/
theorem compile_is_structured (layout : Layout) (source : String) (out : Output)
    (hcompile : compile layout source = .ok out) (hdiagnostics : out.diagnostics = [])
    (hlength : out.instructions.length < 2147483648) :
    ∃ start, Structured out.instructions out.frames start := by
  obtain ⟨-, p, code, t, frames, htext, htranslates, rfl⟩ :=
    translates_of_compile hcompile hdiagnostics
  obtain ⟨fns, is, first, main, rfl, hassembled⟩ := htranslates.assembled htext.grammatical hlength
  exact ⟨1 + is.length, hassembled.structured⟩

/-- A function that calls itself from a loop that is left. -/
theorem compile_is_structured_recursion :
    let source := "int f(int n)\x7brepeat if(n<1)break;until(f(n-1))return n;\x7dvoid main(void)\x7bf(3);\x7d"
    ∃ out, compile {} source = .ok out ∧ out.diagnostics = [] ∧
      out.frames.map (·.entry) = [1, 36] ∧ out.instructions.length = 61 ∧
      ∃ start, Structured out.instructions out.frames start := by
  intro source
  obtain ⟨out, hout, hdiagnostics, hentries, hlength⟩ :
      ∃ out, out ∈ compileWithin? 400 {} source ∧ out.diagnostics = [] ∧
        out.frames.map (·.entry) = [1, 36] ∧ out.instructions.length = 61 := by
    decide +kernel
  have hcompile := compile_of_within hout
  refine ⟨out, hcompile, hdiagnostics, hentries, hlength, ?_⟩
  exact compile_is_structured {} source out hcompile hdiagnostics (by omega)

end OnePass
