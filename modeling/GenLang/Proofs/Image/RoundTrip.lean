import GenLang.Proofs.Image.Nesting

/-!
# Images are read back

An image that the format has room for is read back as it was written, or refused for its version.
-/

namespace GenLang

open Pack

/-! ## Numbers of 32 bits -/

namespace Image

mutual

/-- Whether the slots of an expression are numbers of 32 bits. -/
def Expr.fits : Expr → Bool
  | const _ | self | type _ | staticField _ _ => true
  | slot n => n < UInt32.size
  | list items => Expr.allFit items
  | new _ args | staticCall _ _ args => Expr.allFit args
  | field e _ | unary _ e | await e => e.fits
  | call e _ args => e.fits && Expr.allFit args
  | index a b | binary _ a b => a.fits && b.fits

def Expr.allFit : List Expr → Bool
  | [] => true
  | e :: es => e.fits && Expr.allFit es

end

def Place.fits : Place → Bool
  | slot n => n < UInt32.size
  | field e _ => e.fits
  | staticField _ _ => true
  | index a b => a.fits && b.fits

mutual

/-- Whether the slots and lines of a statement are numbers of 32 bits. -/
def Stmt.fits : Stmt → Bool
  | declare l s init => l < UInt32.size && s < UInt32.size && init.all Expr.fits
  | assign l place e => l < UInt32.size && place.fits && e.fits
  | expr l e | throw l e => l < UInt32.size && e.fits
  | cond l c a b => l < UInt32.size && c.fits && Stmt.allFit a && Stmt.allFit b
  | whileLoop l c b => l < UInt32.size && c.fits && Stmt.allFit b
  | forLoop l s e b => l < UInt32.size && s < UInt32.size && e.fits && Stmt.allFit b
  | ret l e => l < UInt32.size && e.all Expr.fits
  | tryCatch l b s h =>
    l < UInt32.size && Stmt.allFit b && s.all (· < UInt32.size) && Stmt.allFit h
  | breakLoop l | continueLoop l => l < UInt32.size
  | block l b => l < UInt32.size && Stmt.allFit b

def Stmt.allFit : List Stmt → Bool
  | [] => true
  | s :: ss => s.fits && Stmt.allFit ss

end

end Image

def FieldDef.fits (f : FieldDef) : Bool :=
  f.line < UInt32.size && f.init.all Image.Expr.fits

def MethodDef.fits (m : MethodDef) : Bool :=
  m.slots < UInt32.size && m.line < UInt32.size && m.body.all Image.Stmt.allFit

def TypeDef.fits (t : TypeDef) : Bool :=
  t.fields.all (·.fits) && t.methods.all (·.fits)

/-- Whether all numbers of an image have 32 bits. -/
def Image.fits (i : Image) : Bool :=
  i.version < UInt32.size && i.types.all (·.fits)

/-! ## Names and literals -/

theorem OutputKind.ofPack?_name (k : OutputKind) : OutputKind.ofPack? (.str k.name) = some k := by
  cases k <;> rfl

theorem ClassKind.ofPack?_name (k : ClassKind) : ClassKind.ofPack? (.str k.name) = some k := by
  cases k <;> rfl

theorem ReturnShape.ofPack?_name (s : ReturnShape) :
    ReturnShape.ofPack? (.str s.name) = some s := by
  cases s <;> rfl

theorem UnaryOp.ofPack?_name (op : UnaryOp) : UnaryOp.ofPack? (.str op.name) = some op := by
  cases op <;> rfl

theorem BinaryOp.ofPack?_name (op : BinaryOp) : BinaryOp.ofPack? (.str op.name) = some op := by
  cases op <;> rfl

theorem Literal.ofPack?_toPack (c : Literal) : Literal.ofPack? c.toPack = some c := by
  cases c with
  | null => rfl
  | bool b => rfl
  | int n =>
    have hn := toInt64?_toInt n
    rw [toPack, ofPack?, variant?_tagged (i := 2) (by decide)]
    simp [hn]
  | float x => rfl
  | str s => rfl

theorem Literal.toPack_ne_nil (c : Literal) : c.toPack ≠ .nil := by
  cases c <;> exact Pack.noConfusion

theorem TypeRef.toPack_ne_nil (t : TypeRef) : t.toPack ≠ .nil :=
  Pack.noConfusion

theorem TypeRef.ofPack?_toPack (t : TypeRef) : TypeRef.ofPack? t.toPack = some t := by
  have hlibrary : optional toString? (some (ofOption .str t.library)) = some t.library :=
    optional_ofOption (fun _ _ => rfl) (fun _ => Pack.noConfusion)
  rw [toPack, ofPack?, fields?_record (by rfl) (by decide)]
  simp [hlibrary, required_str]

namespace Pack

variable {n : Nat}

theorem length_of_tagged {name : String} {p : Pack}
    (h : (tagged name p).write.length ≤ n + 1) : p.write.length ≤ n := by
  have := length_write_tagged name p
  omega

theorem lengths_of_array {items : List Pack} (h : (array items).write.length ≤ n) :
    ∀ p ∈ items, p.write.length ≤ n :=
  fun _ hp => (length_write_array hp).le.trans h

theorem length_of_field {fields : List (String × Pack)}
    (h : (record fields).write.length ≤ n) {p : Pack} (hp : p ∈ fields.map (·.2)) :
    p.write.length ≤ n :=
  (length_write_record hp).le.trans h

theorem lengths_of_field {fields : List (String × Pack)}
    (h : (record fields).write.length ≤ n) {items : List Pack}
    (hitems : .array items ∈ fields.map (·.2)) : ∀ p ∈ items, p.write.length ≤ n :=
  lengths_of_array (length_of_field h hitems)

end Pack

namespace Image

/-! ## Expressions -/

/-! ### What is read of one form of expression -/

namespace Expr

variable (n : Nat) (e e' : Expr) (es : List Expr) (t : TypeRef) (name : String)

theorem ofPack?_const (c : Literal) : ofPack? (n + 1) (toPack (.const c)) = some (.const c) := by
  refine (bind_tagged (i := 0) (by decide) _).trans ?_
  show (Literal.ofPack? _).bind _ = _
  rw [c.ofPack?_toPack]
  rfl

theorem ofPack?_slot (s : Nat) :
    ofPack? (n + 1) (toPack (.slot s)) = (do return slot (← toNat32? (ofNat s))) := by
  exact bind_tagged (i := 1) (by decide) _

theorem ofPack?_self : ofPack? (n + 1) (toPack .self) = some .self := by
  rfl

theorem ofPack?_type : ofPack? (n + 1) (toPack (.type t)) = some (.type t) := by
  refine (bind_tagged (i := 3) (by decide) _).trans ?_
  show (TypeRef.ofPack? _).bind _ = _
  rw [t.ofPack?_toPack]
  rfl

theorem ofPack?_list : ofPack? (n + 1) (toPack (.list es)) =
    (do return list (← toList? (ofPack? n) (.array (toPacks es)))) := by
  exact bind_tagged (i := 4) (by decide) _

theorem ofPack?_new : ofPack? (n + 1) (toPack (.new t es)) =
    (do return new t (← toList? (ofPack? n) (.array (toPacks es)))) := by
  refine (bind_tagged (i := 5) (by decide) _).trans ?_
  refine (bind_record (by rfl) (by decide) _).trans ?_
  simp [required, t.ofPack?_toPack]

theorem ofPack?_field : ofPack? (n + 1) (toPack (.field e name)) =
    (do return field (← ofPack? n e.toPack) name) := by
  refine (bind_tagged (i := 6) (by decide) _).trans ?_
  refine (bind_record (by rfl) (by decide) _).trans ?_
  simp [required, toString?]

theorem ofPack?_staticField :
    ofPack? (n + 1) (toPack (.staticField t name)) = some (.staticField t name) := by
  refine (bind_tagged (i := 7) (by decide) _).trans ?_
  refine (bind_record (by rfl) (by decide) _).trans ?_
  simp [required, toString?, t.ofPack?_toPack]

theorem ofPack?_call : ofPack? (n + 1) (toPack (.call e name es)) =
    (do
      return call (← ofPack? n e.toPack) name
        (← toList? (ofPack? n) (.array (toPacks es)))) := by
  refine (bind_tagged (i := 8) (by decide) _).trans ?_
  refine (bind_record (by rfl) (by decide) _).trans ?_
  simp [required, toString?]

theorem ofPack?_staticCall : ofPack? (n + 1) (toPack (.staticCall t name es)) =
    (do return staticCall t name (← toList? (ofPack? n) (.array (toPacks es)))) := by
  refine (bind_tagged (i := 9) (by decide) _).trans ?_
  refine (bind_record (by rfl) (by decide) _).trans ?_
  simp [required, toString?, t.ofPack?_toPack]

theorem ofPack?_index : ofPack? (n + 1) (toPack (.index e e')) =
    (do return index (← ofPack? n e.toPack) (← ofPack? n e'.toPack)) := by
  refine (bind_tagged (i := 10) (by decide) _).trans ?_
  exact bind_record (by rfl) (by decide) _

theorem ofPack?_unary (op : UnaryOp) : ofPack? (n + 1) (toPack (.unary op e)) =
    (do return unary op (← ofPack? n e.toPack)) := by
  refine (bind_tagged (i := 11) (by decide) _).trans ?_
  refine (bind_record (by rfl) (by decide) _).trans ?_
  simp [required, op.ofPack?_name]

theorem ofPack?_binary (op : BinaryOp) : ofPack? (n + 1) (toPack (.binary op e e')) =
    (do return binary op (← ofPack? n e.toPack) (← ofPack? n e'.toPack)) := by
  refine (bind_tagged (i := 12) (by decide) _).trans ?_
  refine (bind_record (by rfl) (by decide) _).trans ?_
  simp [required, op.ofPack?_name]

theorem ofPack?_await :
    ofPack? (n + 1) (toPack (.await e)) = (do return await (← ofPack? n e.toPack)) := by
  exact bind_tagged (i := 13) (by decide) _

end Expr

/-! ### Any expression -/

mutual

/-- A reader that may go as deep as an expression has bytes reads the expression. -/
theorem Expr.ofPack?_toPack : ∀ (e : Expr) {n : Nat}, e.fits → e.toPack.write.length ≤ n →
    Expr.ofPack? n e.toPack = some e
  | e, 0, _, hlength => absurd (length_write_pos e.toPack) (by omega)
  -- what is tagged is shorter, and so is each of its fields
  | .const c, n + 1, _, _ => ofPack?_const n c
  | .slot s, n + 1, hfits, _ => by
    rw [fits, decide_eq_true_iff] at hfits
    rw [ofPack?_slot, toNat32?_ofNat hfits]
    rfl
  | .self, n + 1, _, _ => ofPack?_self n
  | .type t, n + 1, _, _ => ofPack?_type n t
  | .list items, n + 1, hfits, hlength => by
    rw [ofPack?_list,
      Expr.toList?_toPacks items hfits (lengths_of_array (length_of_tagged hlength))]
    rfl
  | .new t args, n + 1, hfits, hlength => by
    have hargs : ∀ p ∈ toPacks args, p.write.length ≤ n :=
      lengths_of_field (length_of_tagged hlength) (by simp)
    rw [ofPack?_new, Expr.toList?_toPacks args hfits hargs]
    rfl
  | .field e name, n + 1, hfits, hlength => by
    have he := length_of_field (length_of_tagged hlength) (p := e.toPack) (by simp)
    rw [ofPack?_field, Expr.ofPack?_toPack e hfits he]
    rfl
  | .staticField t name, n + 1, _, _ => ofPack?_staticField n t name
  | .call e method args, n + 1, hfits, hlength => by
    obtain ⟨hfit, hfits⟩ := Bool.and_eq_true_iff.1 hfits
    have he := length_of_field (length_of_tagged hlength) (p := e.toPack) (by simp)
    have hargs : ∀ p ∈ toPacks args, p.write.length ≤ n :=
      lengths_of_field (length_of_tagged hlength) (by simp)
    rw [ofPack?_call, Expr.ofPack?_toPack e hfit he, Expr.toList?_toPacks args hfits hargs]
    rfl
  | .staticCall t method args, n + 1, hfits, hlength => by
    have hargs : ∀ p ∈ toPacks args, p.write.length ≤ n :=
      lengths_of_field (length_of_tagged hlength) (by simp)
    rw [ofPack?_staticCall, Expr.toList?_toPacks args hfits hargs]
    rfl
  | .index e i, n + 1, hfits, hlength => by
    obtain ⟨hfit, hfits⟩ := Bool.and_eq_true_iff.1 hfits
    have he := length_of_field (length_of_tagged hlength) (p := e.toPack) (by simp)
    have hi := length_of_field (length_of_tagged hlength) (p := i.toPack) (by simp)
    rw [ofPack?_index, Expr.ofPack?_toPack e hfit he, Expr.ofPack?_toPack i hfits hi]
    rfl
  | .unary op e, n + 1, hfits, hlength => by
    have he := length_of_field (length_of_tagged hlength) (p := e.toPack) (by simp)
    rw [ofPack?_unary, Expr.ofPack?_toPack e hfits he]
    rfl
  | .binary op a b, n + 1, hfits, hlength => by
    obtain ⟨hfit, hfits⟩ := Bool.and_eq_true_iff.1 hfits
    have ha := length_of_field (length_of_tagged hlength) (p := a.toPack) (by simp)
    have hb := length_of_field (length_of_tagged hlength) (p := b.toPack) (by simp)
    rw [ofPack?_binary, Expr.ofPack?_toPack a hfit ha, Expr.ofPack?_toPack b hfits hb]
    rfl
  | .await e, n + 1, hfits, hlength => by
    rw [ofPack?_await, Expr.ofPack?_toPack e hfits (length_of_tagged hlength)]
    rfl

theorem Expr.toList?_toPacks : ∀ (es : List Expr) {n : Nat}, Expr.allFit es →
    (∀ p ∈ Expr.toPacks es, p.write.length ≤ n) →
    toList? (Expr.ofPack? n) (.array (Expr.toPacks es)) = some es
  | [], _, _, _ => rfl
  | e :: es, n, hfits, hlength => by
    obtain ⟨hfit, hfits⟩ := Bool.and_eq_true_iff.1 hfits
    obtain ⟨he, hes⟩ := List.forall_mem_cons.1 hlength
    have hrest : (Expr.toPacks es).mapM (Expr.ofPack? n) = some es :=
      Expr.toList?_toPacks es hfits hes
    rw [toList?, toPacks, List.mapM_cons, Expr.ofPack?_toPack e hfit he, hrest]
    rfl

end

theorem Expr.toPack_ne_nil (e : Expr) : e.toPack ≠ .nil := by
  cases e <;> exact Pack.noConfusion

theorem Expr.optional_ofPack? {e : Option Expr} {n : Nat} (hfits : e.all Expr.fits)
    (hlength : (ofOption Expr.toPack e).write.length ≤ n) :
    optional (Expr.ofPack? n) (some (ofOption Expr.toPack e)) = some e := by
  refine optional_ofOption (fun e' he => ?_) Expr.toPack_ne_nil
  obtain rfl : e = some e' := he
  exact e'.ofPack?_toPack hfits hlength

/-! ### What is read of one form of place -/

namespace Place

variable (n : Nat) (e e' : Expr) (name : String)

theorem ofPack?_slot (s : Nat) :
    ofPack? n (toPack (.slot s)) = (do return slot (← toNat32? (ofNat s))) :=
  bind_tagged (i := 0) (by decide) _

theorem ofPack?_field :
    ofPack? n (toPack (.field e name)) = (do return field (← Expr.ofPack? n e.toPack) name) := by
  refine (bind_tagged (i := 1) (by decide) _).trans ?_
  refine (bind_record (by rfl) (by decide) _).trans ?_
  simp [required, toString?]

theorem ofPack?_staticField (t : TypeRef) :
    ofPack? n (toPack (.staticField t name)) = some (.staticField t name) := by
  refine (bind_tagged (i := 2) (by decide) _).trans ?_
  refine (bind_record (by rfl) (by decide) _).trans ?_
  simp [required, toString?, t.ofPack?_toPack]

theorem ofPack?_index : ofPack? n (toPack (.index e e')) =
    (do return index (← Expr.ofPack? n e.toPack) (← Expr.ofPack? n e'.toPack)) := by
  refine (bind_tagged (i := 3) (by decide) _).trans ?_
  exact bind_record (by rfl) (by decide) _

end Place

theorem Place.ofPack?_toPack {p : Place} {n : Nat} (hfits : p.fits)
    (hlength : p.toPack.write.length ≤ n) : Place.ofPack? n p.toPack = some p := by
  have hlength' : p.toPack.write.length ≤ n + 1 := hlength.trans (Nat.le_succ n)
  cases p with
  | slot s =>
    rw [fits, decide_eq_true_iff] at hfits
    rw [ofPack?_slot, toNat32?_ofNat hfits]
    rfl
  | field e name =>
    have he := e.ofPack?_toPack hfits (length_of_field (length_of_tagged hlength') (by simp))
    rw [ofPack?_field, he]
    rfl
  | staticField t name => exact ofPack?_staticField n name t
  | index e i =>
    obtain ⟨hfit, hfits⟩ := Bool.and_eq_true_iff.1 hfits
    have he := e.ofPack?_toPack hfit (length_of_field (length_of_tagged hlength') (by simp))
    have hi := i.ofPack?_toPack hfits (length_of_field (length_of_tagged hlength') (by simp))
    rw [ofPack?_index, he, hi]
    rfl

/-! ## Statements -/

/-- How a statement begins to be read, whatever its kind and however its line is written. -/
theorem bind_line {α : Type} (line : Pack) {names : List String} {kind : Pack}
    {v : Nat × Option Pack} (hkind : variant? names kind = some v)
    (k : Nat → Nat × Option Pack → Option α) :
    (do
      match ← fields? ["line", "kind"] (record [("line", line), ("kind", kind)]) with
      | [line, kind] =>
        let l ← required toNat32? line
        let v ← required (variant? names) kind
        k l v
      | _ => failure) = (do k (← toNat32? line) v) := by
  rw [bind_record (by rfl) (by decide)]
  show (toNat32? line >>= fun l => variant? names kind >>= k l) = _
  rw [hkind]
  rfl

/-! ### What is read of one form of statement -/

namespace Stmt

variable (n l s : Nat) (e e' : Expr) (a b : List Stmt)

/-- However the slot is written. -/
theorem ofPack?_local (slot : Pack) (o : Option Expr) :
    ofPack? (n + 1) (ofLine l (tagged "Local"
      (record [("slot", slot), ("init", ofOption Expr.toPack o)]))) = (do
    let l ← toNat32? (ofNat l)
    return declare l (← toNat32? slot)
      (← optional (Expr.ofPack? n) (some (ofOption Expr.toPack o)))) := by
  refine (bind_line (ofNat l) (variant?_tagged (i := 0) (by decide)) _).trans ?_
  exact congrArg _ (funext fun l => bind_record (by rfl) (by decide) _)

theorem ofPack?_declare (o : Option Expr) : ofPack? (n + 1) (toPack (.declare l s o)) = (do
    let l ← toNat32? (ofNat l)
    return declare l (← toNat32? (ofNat s))
      (← optional (Expr.ofPack? n) (some (ofOption Expr.toPack o)))) :=
  ofPack?_local n l (ofNat s) o

theorem ofPack?_assign (p : Place) : ofPack? (n + 1) (toPack (.assign l p e)) = (do
    let l ← toNat32? (ofNat l)
    return assign l (← Place.ofPack? n p.toPack) (← Expr.ofPack? n e.toPack)) := by
  refine (bind_line (ofNat l) (variant?_tagged (i := 1) (by decide)) _).trans ?_
  exact congrArg _ (funext fun l => bind_record (by rfl) (by decide) _)

theorem ofPack?_expr : ofPack? (n + 1) (toPack (.expr l e)) = (do
    let l ← toNat32? (ofNat l)
    return expr l (← Expr.ofPack? n e.toPack)) :=
  bind_line (ofNat l) (variant?_tagged (i := 2) (by decide)) _

theorem ofPack?_cond : ofPack? (n + 1) (toPack (.cond l e a b)) = (do
    let l ← toNat32? (ofNat l)
    return cond l (← Expr.ofPack? n e.toPack) (← toList? (ofPack? n) (.array (toPacks a)))
      (← toList? (ofPack? n) (.array (toPacks b)))) := by
  refine (bind_line (ofNat l) (variant?_tagged (i := 3) (by decide)) _).trans ?_
  exact congrArg _ (funext fun l => bind_record (by rfl) (by decide) _)

theorem ofPack?_whileLoop : ofPack? (n + 1) (toPack (.whileLoop l e b)) = (do
    let l ← toNat32? (ofNat l)
    return whileLoop l (← Expr.ofPack? n e.toPack)
      (← toList? (ofPack? n) (.array (toPacks b)))) := by
  refine (bind_line (ofNat l) (variant?_tagged (i := 4) (by decide)) _).trans ?_
  exact congrArg _ (funext fun l => bind_record (by rfl) (by decide) _)

/-- However the slot is written. -/
theorem ofPack?_forEach (slot : Pack) :
    ofPack? (n + 1) (ofLine l (tagged "ForEach" (record [("slot", slot), ("iterable", e.toPack),
      ("body", .array (toPacks b))]))) = (do
    let l ← toNat32? (ofNat l)
    return forLoop l (← toNat32? slot) (← Expr.ofPack? n e.toPack)
      (← toList? (ofPack? n) (.array (toPacks b)))) := by
  refine (bind_line (ofNat l) (variant?_tagged (i := 5) (by decide)) _).trans ?_
  exact congrArg _ (funext fun l => bind_record (by rfl) (by decide) _)

theorem ofPack?_forLoop : ofPack? (n + 1) (toPack (.forLoop l s e b)) = (do
    let l ← toNat32? (ofNat l)
    return forLoop l (← toNat32? (ofNat s)) (← Expr.ofPack? n e.toPack)
      (← toList? (ofPack? n) (.array (toPacks b)))) :=
  ofPack?_forEach n l e b (ofNat s)

theorem ofPack?_ret (o : Option Expr) : ofPack? (n + 1) (toPack (.ret l o)) = (do
    let l ← toNat32? (ofNat l)
    return ret l (← optional (Expr.ofPack? n) (some (ofOption Expr.toPack o)))) :=
  bind_line (ofNat l) (variant?_tagged (i := 6) (by decide)) _

theorem ofPack?_throw : ofPack? (n + 1) (toPack (.throw l e)) = (do
    let l ← toNat32? (ofNat l)
    return throw l (← Expr.ofPack? n e.toPack)) :=
  bind_line (ofNat l) (variant?_tagged (i := 7) (by decide)) _

theorem ofPack?_tryCatch (o : Option Nat) : ofPack? (n + 1) (toPack (.tryCatch l a o b)) = (do
    let l ← toNat32? (ofNat l)
    return tryCatch l (← toList? (ofPack? n) (.array (toPacks a)))
      (← optional toNat32? (some (ofOption ofNat o)))
      (← toList? (ofPack? n) (.array (toPacks b)))) := by
  refine (bind_line (ofNat l) (variant?_tagged (i := 8) (by decide)) _).trans ?_
  exact congrArg _ (funext fun l => bind_record (by rfl) (by decide) _)

theorem ofPack?_breakLoop : ofPack? (n + 1) (toPack (.breakLoop l)) =
    (do return breakLoop (← toNat32? (ofNat l))) :=
  bind_line (ofNat l) (variant?_str (i := 9) (by decide)) _

theorem ofPack?_continueLoop : ofPack? (n + 1) (toPack (.continueLoop l)) =
    (do return continueLoop (← toNat32? (ofNat l))) :=
  bind_line (ofNat l) (variant?_str (i := 10) (by decide)) _

theorem ofPack?_block : ofPack? (n + 1) (toPack (.block l b)) = (do
    let l ← toNat32? (ofNat l)
    return block l (← toList? (ofPack? n) (.array (toPacks b)))) :=
  bind_line (ofNat l) (variant?_tagged (i := 11) (by decide)) _

end Stmt

/-! ### Any statement -/

theorem length_of_kind {l n : Nat} {name : String} {p : Pack}
    (h : (ofLine l (tagged name p)).write.length ≤ n + 1) : p.write.length ≤ n := by
  have hkind := length_of_field h (p := tagged name p) (by simp)
  exact length_of_tagged hkind

mutual

theorem Stmt.ofPack?_toPack : ∀ (s : Stmt) {n : Nat}, s.fits → s.toPack.write.length ≤ n →
    Stmt.ofPack? n s.toPack = some s
  | s, 0, _, hlength => absurd (length_write_pos s.toPack) (by omega)
  | .declare l s init, n + 1, hfits, hlength => by
    simp only [fits, Bool.and_eq_true, decide_eq_true_iff] at hfits
    obtain ⟨⟨hl, hs⟩, hinit⟩ := hfits
    have hinit' := Expr.optional_ofPack? hinit (length_of_field (length_of_kind hlength) (by simp))
    rw [ofPack?_declare, toNat32?_ofNat hl, toNat32?_ofNat hs, hinit']
    rfl
  | .assign l place e, n + 1, hfits, hlength => by
    simp only [fits, Bool.and_eq_true, decide_eq_true_iff] at hfits
    obtain ⟨⟨hl, hplace⟩, he⟩ := hfits
    have hplace' := Place.ofPack?_toPack hplace (length_of_field (length_of_kind hlength) (by simp))
    have he' := e.ofPack?_toPack he (length_of_field (length_of_kind hlength) (by simp))
    rw [ofPack?_assign, toNat32?_ofNat hl, hplace', he']
    rfl
  | .expr l e, n + 1, hfits, hlength => by
    simp only [fits, Bool.and_eq_true, decide_eq_true_iff] at hfits
    rw [ofPack?_expr, toNat32?_ofNat hfits.1, e.ofPack?_toPack hfits.2 (length_of_kind hlength)]
    rfl
  | .cond l c a b, n + 1, hfits, hlength => by
    simp only [fits, Bool.and_eq_true, decide_eq_true_iff] at hfits
    obtain ⟨⟨⟨hl, hc⟩, ha⟩, hb⟩ := hfits
    have hc' := c.ofPack?_toPack hc (length_of_field (length_of_kind hlength) (by simp))
    have ha' := Stmt.toList?_toPacks a ha (lengths_of_field (length_of_kind hlength) (by simp))
    have hb' := Stmt.toList?_toPacks b hb (lengths_of_field (length_of_kind hlength) (by simp))
    rw [ofPack?_cond, toNat32?_ofNat hl, hc', ha', hb']
    rfl
  | .whileLoop l c b, n + 1, hfits, hlength => by
    simp only [fits, Bool.and_eq_true, decide_eq_true_iff] at hfits
    obtain ⟨⟨hl, hc⟩, hb⟩ := hfits
    have hc' := c.ofPack?_toPack hc (length_of_field (length_of_kind hlength) (by simp))
    have hb' := Stmt.toList?_toPacks b hb (lengths_of_field (length_of_kind hlength) (by simp))
    rw [ofPack?_whileLoop, toNat32?_ofNat hl, hc', hb']
    rfl
  | .forLoop l s e b, n + 1, hfits, hlength => by
    simp only [fits, Bool.and_eq_true, decide_eq_true_iff] at hfits
    obtain ⟨⟨⟨hl, hs⟩, he⟩, hb⟩ := hfits
    have he' := e.ofPack?_toPack he (length_of_field (length_of_kind hlength) (by simp))
    have hb' := Stmt.toList?_toPacks b hb (lengths_of_field (length_of_kind hlength) (by simp))
    rw [ofPack?_forLoop, toNat32?_ofNat hl, toNat32?_ofNat hs, he', hb']
    rfl
  | .ret l e, n + 1, hfits, hlength => by
    simp only [fits, Bool.and_eq_true, decide_eq_true_iff] at hfits
    have he := Expr.optional_ofPack? hfits.2 (length_of_kind hlength)
    rw [ofPack?_ret, toNat32?_ofNat hfits.1, he]
    rfl
  | .throw l e, n + 1, hfits, hlength => by
    simp only [fits, Bool.and_eq_true, decide_eq_true_iff] at hfits
    rw [ofPack?_throw, toNat32?_ofNat hfits.1, e.ofPack?_toPack hfits.2 (length_of_kind hlength)]
    rfl
  | .tryCatch l b s h, n + 1, hfits, hlength => by
    simp only [fits, Bool.and_eq_true, decide_eq_true_iff] at hfits
    obtain ⟨⟨⟨hl, hb⟩, hs⟩, hh⟩ := hfits
    have hb' := Stmt.toList?_toPacks b hb (lengths_of_field (length_of_kind hlength) (by simp))
    have hs' : optional toNat32? (some (ofOption ofNat s)) = some s :=
      optional_ofOption (fun x hx => toNat32?_ofNat (by simpa [Option.mem_def.1 hx] using hs))
        fun _ => Pack.noConfusion
    have hh' := Stmt.toList?_toPacks h hh (lengths_of_field (length_of_kind hlength) (by simp))
    rw [ofPack?_tryCatch, toNat32?_ofNat hl, hb', hs', hh']
    rfl
  | .breakLoop l, n + 1, hl, _ => by
    simp only [fits, decide_eq_true_iff] at hl
    rw [ofPack?_breakLoop, toNat32?_ofNat hl]
    rfl
  | .continueLoop l, n + 1, hl, _ => by
    simp only [fits, decide_eq_true_iff] at hl
    rw [ofPack?_continueLoop, toNat32?_ofNat hl]
    rfl
  | .block l b, n + 1, hfits, hlength => by
    simp only [fits, Bool.and_eq_true, decide_eq_true_iff] at hfits
    have hb := Stmt.toList?_toPacks b hfits.2 (lengths_of_array (length_of_kind hlength))
    rw [ofPack?_block, toNat32?_ofNat hfits.1, hb]
    rfl

theorem Stmt.toList?_toPacks : ∀ (ss : List Stmt) {n : Nat}, Stmt.allFit ss →
    (∀ p ∈ Stmt.toPacks ss, p.write.length ≤ n) →
    toList? (Stmt.ofPack? n) (.array (Stmt.toPacks ss)) = some ss
  | [], _, _, _ => rfl
  | s :: ss, n, hfits, hlength => by
    obtain ⟨hfit, hfits⟩ := Bool.and_eq_true_iff.1 hfits
    obtain ⟨hs, hss⟩ := List.forall_mem_cons.1 hlength
    have hrest : (Stmt.toPacks ss).mapM (Stmt.ofPack? n) = some ss :=
      Stmt.toList?_toPacks ss hfits hss
    rw [toList?, toPacks, List.mapM_cons, Stmt.ofPack?_toPack s hfit hs, hrest]
    rfl

end

end Image

theorem Image.Stmt.toPacks_eq_map (ss : List Image.Stmt) :
    Image.Stmt.toPacks ss = ss.map Image.Stmt.toPack := by
  induction ss with
  | nil => rfl
  | cons s ss ih => rw [Image.Stmt.toPacks, ih, List.map_cons]

/-! ## Definitions -/

theorem ParamDef.ofPack?_toPack (p : ParamDef) : ParamDef.ofPack? p.toPack = some p := by
  have htype : optional toString? (some (ofOption .str p.typeName)) = some p.typeName :=
    optional_ofOption (fun _ _ => rfl) fun _ => Pack.noConfusion
  have hdefault : optional Literal.ofPack? (some (ofOption Literal.toPack p.default)) =
      some p.default :=
    optional_ofOption (fun c _ => c.ofPack?_toPack) Literal.toPack_ne_nil
  rw [toPack, ofPack?, fields?_record (by rfl) (by decide)]
  simp [required_str, htype, hdefault]

variable {n : Nat}

theorem FieldDef.ofPack?_toPack {f : FieldDef} (hfits : f.fits)
    (hlength : f.toPack.write.length ≤ n) : FieldDef.ofPack? n f.toPack = some f := by
  rw [fits, Bool.and_eq_true, decide_eq_true_iff] at hfits
  have hinit := Image.Expr.optional_ofPack? hfits.2 (length_of_field hlength (by simp))
  have hstatic : required toBool? (some (.bool f.isStatic)) = some f.isStatic := rfl
  rw [toPack]
  refine ofNat_elim hfits.1 fun line hline => ?_
  rw [ofPack?, fields?_record (by rfl) (by decide)]
  simp [required_str, hstatic, hinit, required_eq hline]

theorem MethodDef.ofPack?_toPack {m : MethodDef} (hfits : m.fits)
    (hlength : m.toPack.write.length ≤ n) : MethodDef.ofPack? n m.toPack = some m := by
  rw [fits, Bool.and_eq_true, Bool.and_eq_true, decide_eq_true_iff, decide_eq_true_iff] at hfits
  obtain ⟨⟨hslots, hline⟩, hbody⟩ := hfits
  have hbool (b : Bool) : required toBool? (some (.bool b)) = some b := rfl
  have hparams : toList? ParamDef.ofPack? (ofList ParamDef.toPack m.params) = some m.params :=
    toList?_ofList fun p _ => p.ofPack?_toPack
  have hreturns : optional toString? (some (ofOption .str m.returns)) = some m.returns :=
    optional_ofOption (fun _ _ => rfl) fun _ => Pack.noConfusion
  -- Only the body is bounded by the length of what is written: the rest is read without a bound.
  have hbody' : optional (toList? (Image.Stmt.ofPack? n))
      (some (ofOption (ofList Image.Stmt.toPack) m.body)) = some m.body := by
    refine optional_ofOption (fun ss hss => ?_) fun _ => Pack.noConfusion
    have hsome : m.body = some ss := hss
    rw [hsome] at hbody
    have hitems : (array (Image.Stmt.toPacks ss)).write.length ≤ n := by
      rw [Image.Stmt.toPacks_eq_map]
      exact length_of_field hlength (by simp [hsome, ofOption, ofList])
    have hread := Image.Stmt.toList?_toPacks ss hbody (lengths_of_array hitems)
    rwa [Image.Stmt.toPacks_eq_map] at hread
  rw [toPack]
  refine ofNat_elim hslots fun slots hslots => ofNat_elim hline fun line hline => ?_
  rw [ofPack?, fields?_record (by rfl) (by decide)]
  simp only [List.map_cons, List.map_nil, Option.bind_eq_bind, Option.bind_some, Option.pure_def,
    required_str, hbool, required_eq hparams, hreturns, required_eq (ReturnShape.ofPack?_name _),
    required_eq hslots, hbody', required_eq hline]

theorem TypeDef.ofPack?_toPack {t : TypeDef} (hfits : t.fits)
    (hlength : t.toPack.write.length ≤ n) : TypeDef.ofPack? n t.toPack = some t := by
  rw [fits, Bool.and_eq_true, List.all_eq_true, List.all_eq_true] at hfits
  have hbool (b : Bool) : required toBool? (some (.bool b)) = some b := rfl
  have hgenerics : toList? toString? (ofList .str t.generics) = some t.generics :=
    toList?_ofList fun _ _ => rfl
  have hbase : optional TypeRef.ofPack? (some (ofOption TypeRef.toPack t.base)) = some t.base :=
    optional_ofOption (fun r _ => r.ofPack?_toPack) TypeRef.toPack_ne_nil
  have hcapabilities : toList? TypeRef.ofPack? (ofList TypeRef.toPack t.capabilities) =
      some t.capabilities :=
    toList?_ofList fun r _ => r.ofPack?_toPack
  have hfields : toList? (FieldDef.ofPack? n) (ofList FieldDef.toPack t.fields) = some t.fields :=
    toList?_ofList fun f hf => FieldDef.ofPack?_toPack (hfits.1 f hf)
      (lengths_of_field hlength (by simp [ofList]) _ (List.mem_map_of_mem hf))
  have hmethods : toList? (MethodDef.ofPack? n) (ofList MethodDef.toPack t.methods) =
      some t.methods :=
    toList?_ofList fun m hm => MethodDef.ofPack?_toPack (hfits.2 m hm)
      (lengths_of_field hlength (by simp [ofList]) _ (List.mem_map_of_mem hm))
  rw [toPack, ofPack?, fields?_record (by rfl) (by decide)]
  simp only [List.map_cons, List.map_nil, Option.bind_eq_bind, Option.bind_some, Option.pure_def,
    required_str, required_eq (ClassKind.ofPack?_name _), hbool, required_eq hgenerics, hbase,
    required_eq hcapabilities, required_eq hfields, required_eq hmethods]

theorem Image.ofPack?_toPack {i : Image} (hfits : i.fits) (hlength : i.toPack.write.length ≤ n) :
    Image.ofPack? n i.toPack = some i := by
  rw [fits, Bool.and_eq_true, decide_eq_true_iff, List.all_eq_true] at hfits
  have hreferences : toList? toString? (ofList .str i.references) = some i.references :=
    toList?_ofList fun _ _ => rfl
  have htypes : toList? (TypeDef.ofPack? n) (ofList TypeDef.toPack i.types) = some i.types :=
    toList?_ofList fun t ht => TypeDef.ofPack?_toPack (hfits.2 t ht)
      (lengths_of_field hlength (by simp [ofList]) _ (List.mem_map_of_mem ht))
  rw [toPack]
  refine ofNat_elim hfits.1 fun version hversion => ?_
  rw [ofPack?, fields?_record (by rfl) (by decide)]
  simp [required_eq hversion, required_str, required_eq (OutputKind.ofPack?_name _),
    required_eq hreferences, required_eq htypes]

/-! ## Images -/

/-- An image that the format has room for, and that nests no deeper than is read, is read back as it
was written; one of another version is refused for it. -/
theorem decode_encode {i : Image} (hfits : i.fits) (hwritable : i.toPack.isWritable)
    (hnesting : i.toPack.nesting ≤ maxDepth) :
    Image.decode i.encode =
      if i.version = Image.currentVersion then .ok i else .error (.version i.version) :=
  Image.decode_eq (ofBytes_write_self hwritable hnesting)
    (Image.ofPack?_toPack hfits (Nat.le_refl _))

/-- A program that counts up and reports what goes wrong. -/
def counting : Image where
  version := Image.currentVersion
  name := "App"
  kind := .executable
  references := ["System.Core"]
  types := [{
    name := "Program", kind := .class_, isAbstract := false, isStatic := true, generics := []
    base := none, capabilities := [], file := "main.gen"
    fields := [{ name := "step", isStatic := true, init := some (.const (.int 128)), line := 2 }]
    methods := [{
      name := "Main", isStatic := true, isAsync := false, isNative := false
      params := [{ name := "factor", typeName := none, default := some (.float 0.5) }]
      returns := none, shape := .void, slots := 3, line := 3
      body := some [
        .declare 4 1 (some (.const (.int (-1)))),
        .tryCatch 5
          [.whileLoop 6 (.binary .lt (.slot 1) (.const (.int 70000)))
            [.assign 7 (.slot 1)
              (.binary .add (.slot 1) (.staticField ⟨none, "Program"⟩ "step"))]]
          (some 2)
          [.expr 9 (.staticCall ⟨some "System.Core", "Console"⟩ "WriteLine"
            [.call (.slot 2) "ToString" []])]] }] }]

theorem decode_encode_counting :
    counting.fits = true ∧ counting.toPack.isWritable = true ∧
      counting.toPack.nesting ≤ maxDepth ∧ Image.decode counting.encode = .ok counting :=
  have hfits : counting.fits := by decide +kernel
  have hwritable : counting.toPack.isWritable := by decide +kernel
  have hnesting : counting.toPack.nesting ≤ maxDepth := by decide +kernel
  ⟨hfits, hwritable, hnesting, decode_encode hfits hwritable hnesting⟩

end GenLang
