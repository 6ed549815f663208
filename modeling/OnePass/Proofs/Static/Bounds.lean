import OnePass.Proofs.Static.Table

/-!
# How much a translation takes

A token costs at most seven instructions and one word of storage, beside the words of arrays. -/

namespace OnePass

/-! ### Code of fragments -/

namespace Use

variable (l : Layout) (n : Nat) (s : Symbol)

theorem length_field (pointer offset : Word) : (field l n pointer offset).code.length ≤ 1 := by
  rw [field]
  split <;> simp

theorem length_cell : (cell l n s).code.length ≤ 1 := by
  rw [cell]
  split
  · exact Nat.zero_le 1
  · exact length_field ..

theorem length_through (u : Use) : u.through.code.length ≤ u.code.length + 1 := by
  rw [through]
  split <;> simp

theorem length_value : (value l n s).code.length ≤ 2 := by
  have hcell := length_cell l n s
  rw [value, scalar]
  split
  · exact Nat.zero_le 2
  split
  · exact Nat.zero_le 2
  split
  · exact Nat.le_trans (length_through _) (Nat.succ_le_succ hcell)
  · exact Nat.le_succ_of_le hcell

theorem length_reference : (reference l n s).code.length ≤ 1 := by
  rw [reference]
  split
  · exact Nat.zero_le 1
  rw [base]
  split
  · split <;> simp [number]
  · split <;> simp [number]
  · exact length_cell ..

theorem length_argument (parameter : Ty) : (argument l n parameter s).code.length ≤ 2 := by
  rw [argument]
  split
  · exact Nat.le_succ_of_le (length_reference ..)
  · exact length_value ..

end Use

namespace Fragment

variable (l : Layout)

theorem length_binary (op : BinaryOp) (a b c : Symbol) : (binary l op a b c).length ≤ 7 := by
  have ha := Use.length_value l 0 a
  have hb := Use.length_value l (Use.value l 0 a).cells b
  have hc := Use.length_value l ((Use.value l 0 a).cells + (Use.value l (Use.value l 0 a).cells
    b).cells) c
  simp only [binary, List.length_append, List.length_singleton]
  omega

theorem length_assign (a b : Symbol) : (assign l a b).length ≤ 5 := by
  have hb := Use.length_value l 0 b
  have ha := Use.length_value l (Use.value l 0 b).cells a
  simp only [assign, List.length_append, List.length_singleton]
  omega

theorem length_index (a i e : Symbol) : (index l a i e).length ≤ 6 := by
  have hi := Use.length_value l 0 i
  have he := Use.length_cell l (Use.value l 0 i).cells e
  have ha := Use.length_reference l ((Use.value l 0 i).cells + (Use.cell l (Use.value l 0 i).cells
    e).cells) a
  simp only [index, List.length_append, List.length_singleton]
  omega

theorem length_print (args : List Symbol) : (print l args).length ≤ 3 := by
  cases args with
  | nil => exact Nat.le_add_left 1 2
  | cons arg args =>
    have harg := Use.length_value l 0 arg
    simp only [print, List.length_append, List.length_singleton]
    omega

theorem length_argument (parameter : Ty) (arg : Symbol) (i : Nat) :
    (argument l parameter arg i).length ≤ 4 := by
  have ha := Use.length_argument l 0 arg parameter
  have hb := Use.length_field l (Use.argument l 0 parameter arg).cells l.stackPointer
    (BitVec.ofNat 32 (Record.header + Word.size * i))
  simp only [argument, List.length_append, List.length_singleton]
  omega

theorem length_arguments (params : List Ty) (args : List Symbol) :
    (arguments l params args).length ≤ 4 * args.length := by
  have hall : ∀ xs : List ((Ty × Symbol) × Nat), (xs.flatMap fun x =>
      argument l x.1.1 x.1.2 x.2).length ≤ 4 * xs.length := by
    intro xs
    induction xs with
    | nil => exact Nat.le_refl 0
    | cons x xs ih =>
      have hx := length_argument l x.1.1 x.1.2 x.2
      rw [List.flatMap_cons, List.length_append, List.length_cons]
      omega
  have hzip : (params.zip args).zipIdx.length ≤ args.length := by
    rw [List.length_zipIdx, List.length_zip]
    exact Nat.min_le_right ..
  exact Nat.le_trans (hall (params.zip args).zipIdx) (Nat.mul_le_mul_left 4 hzip)

theorem length_call (pc : Nat) (callee : Symbol) (args : List Symbol) :
    (call l pc callee args).length ≤ 4 * args.length + 3 := by
  have hpass := length_arguments l (callee.args.getD []) args
  have hfield := Use.length_field l 0 l.stackPointer (BitVec.ofNat 32 Record.returnAddress)
  simp only [call, enter, List.length_append, List.length_cons, List.length_nil]
  omega

theorem length_fetch (result : Symbol) : (fetch l result).length ≤ 3 := by
  have hresult := Use.length_value l 0 result
  simp only [fetch, List.length_append, List.length_singleton]
  omega

theorem length_storeReturn (s : Symbol) : (storeReturn l s).length ≤ 4 := by
  have hs := Use.length_value l 0 s
  have hfield := Use.length_field l (Use.value l 0 s).cells l.framePointer
    (BitVec.ofNat 32 Record.returnValue)
  simp only [storeReturn, List.length_append, List.length_singleton]
  omega

theorem length_prologue : (prologue l).length ≤ 5 := by
  have ha := Use.length_field l 0 l.stackPointer (BitVec.ofNat 32 Record.savedStack)
  have hb := Use.length_field l (Use.field l 0 l.stackPointer (BitVec.ofNat 32
    Record.savedStack)).cells l.stackPointer (BitVec.ofNat 32 Record.savedFrame)
  simp only [prologue, List.length_append, List.length_cons, List.length_nil]
  omega

theorem length_epilogue : (epilogue l).length ≤ 7 := by
  have ha := Use.length_field l 0 l.framePointer (BitVec.ofNat 32 Record.savedStack)
  have hb := Use.length_field l (Use.field l 0 l.framePointer (BitVec.ofNat 32
    Record.savedStack)).cells l.framePointer (BitVec.ofNat 32 Record.savedFrame)
  simp only [epilogue, List.length_append, List.length_cons, List.length_nil]
  omega

end Fragment

/-! ### Storage -/

/-- Bytes of the record of the open function. -/
def SymbolTable.frameSize (t : SymbolTable) : Nat := t.function.elim 0 (·.record.size)

section
variable {t t' : SymbolTable} {f : OpenFunction}

theorem SymbolTable.frameSize_eq (hf : t.function = some f) : t.frameSize = f.record.size := by
  rw [SymbolTable.frameSize, hf]
  rfl

theorem SymbolTable.frameSize_withFunction (t : SymbolTable) (f : OpenFunction) :
    (t.withFunction f).frameSize = f.record.size := rfl

theorem SymbolTable.frameSize_withTemporary (hf : t.function = some f) :
    (t.withTemporary f).frameSize = t.frameSize + 4 := by
  rw [SymbolTable.frameSize_eq hf]
  rfl

theorem SymbolTable.Stores.frameSize_le {x : String} {ty : Ty} {words : Nat}
    (h : Stores x ty words t t') : t'.frameSize ≤ t.frameSize + 4 * words := by
  cases h with
  | inner hf hopen hfresh hfits =>
    rename_i f
    have hsize : ((f.grow words).insert (.cell x ty f.record.size false)).record.size =
        f.record.size + 4 * words := by
      rw [OpenFunction.insert]
      split <;> rfl
    refine Nat.le_of_eq ?_
    rw [SymbolTable.frameSize_eq hf, SymbolTable.withLocal, SymbolTable.frameSize_withFunction, hsize]
  | outer hf => exact Nat.le_add_right ..

theorem Chain.frameSize_le {ds : List VarDecl} (h : Chain VarDecl.Declares ds t t') :
    t'.frameSize ≤ t.frameSize
      + 4 * ((ds.map VarDecl.arrayWords).sum + (ds.flatMap VarDecl.tokens).length) := by
  induction h with
  | nil => exact Nat.le_add_right ..
  | cons hd _ ih =>
    rename_i d ds _ _ _ _
    have hsize := (VarDecl.declares_iff.mp hd).2.frameSize_le
    have hwords := d.words_le
    rw [List.map_cons, List.sum_cons, List.flatMap_cons, List.length_append]
    omega

end

/-! ### Phrases -/

theorem Calls.length {t : SymbolTable} {target callee : Symbol} {values : List StackValue}
    {ss : List Symbol} (h : Calls t target values callee ss) : ss.length = values.length := by
  simpa using (congrArg List.length h.operands).symm

variable {l : Layout}

mutual

/-- An expression leaves four instructions of what its tokens may cost, and takes a word a token at
    most. -/
theorem Expr.Translates.bounds {e : Expr} {pc : Nat} {t t' : SymbolTable} {is : List Instruction}
    {v : StackValue} : e.Translates l pc t is v t' → is.length + 4 ≤ 7 * e.tokens.length ∧
      t'.frameSize ≤ t.frameSize + 4 * e.tokens.length
  | .num _ => ⟨Nat.le_add_right 4 3, Nat.le_add_right ..⟩
  | .name _ => ⟨Nat.le_add_right 4 3, Nat.le_add_right ..⟩
  | .index hx ha hi hv hf hroom => by
    rename_i a _ _ s t₁ f
    have hi := hi.bounds
    have hcode := Fragment.length_index l a s (f.temporary t₁.temporaries true)
    rw [SymbolTable.frameSize_withTemporary hf]
    simp only [Expr.tokens, List.length_append, List.length_cons, List.length_nil]
    omega
  | .print hx hargs hcalls hout => by
    rename_i ss
    have hargs := hargs.bounds
    have hcode := Fragment.length_print l ss
    simp only [Expr.tokens, List.length_append, List.length_cons, List.length_nil]
    omega
  | .callVoid hx hargs hcalls hout hty => by
    rename_i is _ callee ss
    have hargs := hargs.bounds
    have hlength := hcalls.length
    have hcode := Fragment.length_call l (pc + is.length) callee ss
    simp only [Expr.tokens, List.length_append, List.length_cons, List.length_nil]
    omega
  | .callValue hx hargs hcalls hout hty hf hroom => by
    rename_i is _ t₁ callee ss f
    have hargs := hargs.bounds
    have hlength := hcalls.length
    have hcode := Fragment.length_call l (pc + is.length) callee ss
    have hfetch := Fragment.length_fetch l (f.temporary t₁.temporaries false)
    rw [SymbolTable.frameSize_withTemporary hf]
    simp only [Expr.tokens, List.length_append, List.length_cons, List.length_nil]
    omega
  | .paren he => by
    have he := he.bounds
    simp only [Expr.tokens, List.length_append, List.length_cons, List.length_nil]
    omega
  | .binary h₁ hv₁ h₂ hv₂ hf hroom => by
    rename_i op _ _ _ _ _ s₁ _ _ _ s₂ t₂ f
    have h₁ := h₁.bounds
    have h₂ := h₂.bounds
    have hcode := Fragment.length_binary l op s₁ s₂ (f.temporary t₂.temporaries false)
    rw [SymbolTable.frameSize_withTemporary hf]
    simp only [Expr.tokens, List.length_append, List.length_cons, List.length_nil]
    omega
  | .assign h₁ hv₁ h₂ hv₂ => by
    rename_i s₁ _ _ _ s₂
    have h₁ := h₁.bounds
    have h₂ := h₂.bounds
    have hcode := Fragment.length_assign l s₁ s₂
    simp only [Expr.tokens, List.length_append, List.length_cons, List.length_nil]
    omega

theorem Args.Translates.bounds {args : Args} {pc : Nat} {t t' : SymbolTable}
    {is : List Instruction} {values : List StackValue} : args.Translates l pc t is values t' →
      is.length + 4 * values.length ≤ 7 * args.tokens.length ∧
        t'.frameSize ≤ t.frameSize + 4 * args.tokens.length
  | .none => ⟨Nat.zero_le 7, Nat.le_add_right ..⟩
  | .last he => by
    have he := he.bounds
    simp only [Args.tokens, List.length_append, List.length_cons, List.length_nil]
    omega
  | .more he hrest => by
    have he := he.bounds
    have hrest := hrest.bounds
    simp only [Args.tokens, List.length_append, List.length_cons, List.length_nil]
    omega

end

theorem Expr.Tests.bounds {e : Expr} {pc : Nat} {t t' : SymbolTable} {is : List Instruction}
    {c : Operand} (h : e.Tests l pc t is c t') : is.length + 2 ≤ 7 * e.tokens.length ∧
      t'.frameSize ≤ t.frameSize + 4 * e.tokens.length := by
  cases h with
  | intro he hv =>
    rename_i s
    have he := he.bounds
    have hvalue := Use.length_value l 0 s
    rw [List.length_append]
    omega

mutual

/-- A statement takes seven instructions and a word a token at most, and the words of its arrays. -/
theorem Stmt.Translates.bounds {s : Stmt} {inLoop : Bool} {pc : Nat} {t t' : SymbolTable}
    {ps : List Planned} : s.Translates l inLoop pc t ps t' → ps.length ≤ 7 * s.tokens.length ∧
      t'.frameSize ≤ t.frameSize + 4 * (s.arrayWords + s.tokens.length)
  | .empty => ⟨Nat.zero_le 7, Nat.le_add_right ..⟩
  | .expr he => by
    have he := he.bounds
    simp only [Stmt.arrayWords, Stmt.tokens, Planned.length_plain, List.length_append,
      List.length_cons, List.length_nil]
    omega
  | .block hf hlocals hbody hf₂ _ => by
    have hlocals := hlocals.frameSize_le
    have hbody := hbody.bounds
    rw [SymbolTable.frameSize_withFunction] at hlocals
    rw [SymbolTable.frameSize_eq hf₂] at hbody
    rw [SymbolTable.frameSize_eq hf, SymbolTable.frameSize_withFunction]
    simp only [Stmt.arrayWords, Stmt.tokens, List.length_append, List.length_cons, List.length_nil]
    dsimp only at hlocals ⊢
    omega
  | .leave => ⟨Nat.le_add_left 1 13, Nat.le_add_right ..⟩
  | .ifThen htest hthen => by
    have htest := htest.bounds
    have hthen := hthen.bounds
    simp only [Stmt.arrayWords, Stmt.tokens, Planned.length_plain, List.length_append,
      List.length_cons, List.length_nil]
    omega
  | .ifElse htest hthen helse => by
    have htest := htest.bounds
    have hthen := hthen.bounds
    have helse := helse.bounds
    simp only [Stmt.arrayWords, Stmt.tokens, Planned.length_plain, List.length_append,
      List.length_cons, List.length_nil]
    omega
  | .loop hbody htest => by
    have hbody := hbody.bounds
    have htest := htest.bounds
    simp only [Stmt.arrayWords, Stmt.tokens, Planned.length_plain, List.length_map,
      List.length_append, List.length_cons, List.length_nil]
    omega
  | .return => ⟨Nat.le_add_left 1 13, Nat.le_add_right ..⟩
  | .returnValue he hv => by
    rename_i s
    have he := he.bounds
    have hstore := Fragment.length_storeReturn l s
    simp only [Stmt.arrayWords, Stmt.tokens, Planned.length_plain, List.length_append,
      List.length_cons, List.length_nil]
    omega

theorem Stmt.ListTranslates.bounds {ss : List Stmt} {inLoop : Bool} {pc : Nat}
    {t t' : SymbolTable} {ps : List Planned} : Stmt.ListTranslates l inLoop pc t ss ps t' →
      ps.length ≤ 7 * (Stmt.listTokens ss).length ∧
        t'.frameSize ≤ t.frameSize + 4 * (Stmt.listArrayWords ss + (Stmt.listTokens ss).length)
  | .nil => ⟨Nat.zero_le _, Nat.le_add_right ..⟩
  | .cons hs hss => by
    have hs := hs.bounds
    have hss := hss.bounds
    simp only [Stmt.listArrayWords, Stmt.listTokens, List.length_append]
    omega

end

theorem FnDecl.Translates.length_le {f : FnDecl} {pc : Nat} {t t' : SymbolTable}
    {is : List Instruction} {frame : Frame} (h : f.Translates l pc t is t' frame) :
    0 < is.length ∧ is.length ≤ 7 * f.tokens.length := by
  cases h with
  | intro _ _ _ hstmt _ =>
    have hbody := hstmt.bounds
    have hprologue := Fragment.length_prologue l
    have hepilogue := Fragment.length_epilogue l
    simp only [Fragment.function, FnDecl.tokens, List.length_append, List.length_map,
      List.length_cons, List.length_nil]
    omega

end OnePass
