import GenLang.Proofs.Image.RoundTrip

/-!
# What is read is what was written

Reading may refuse what was written, because it nests too deep or holds numbers that are too large.
What it does not refuse it reads as it was written.
-/

namespace GenLang

namespace Pack

/-! ## Values -/

theorem eq_of_mapM {α : Type} {f : α → Option α} (hf : ∀ a b, f a = some b → b = a)
    {as bs : List α} (h : as.mapM f = some bs) : bs = as := by
  induction as generalizing bs with
  | nil =>
    cases h
    rfl
  | cons a as ih =>
    rw [List.mapM_cons, Option.bind_eq_bind, Option.bind_eq_some_iff] at h
    obtain ⟨b, hb, h⟩ := h
    rw [Option.bind_eq_bind, Option.bind_eq_some_iff] at h
    obtain ⟨bs', hbs', h⟩ := h
    cases h
    rw [hf a b hb, ih hbs']

theorem eq_of_toNat32? {n k : Nat} (h : toNat32? (ofNat n) = some k) : k = n := by
  rw [ofNat, toNat32?] at h
  split at h
  · cases h
    rfl
  · cases h

/-- How a number is written does not matter, as long as nothing else is read for it. -/
@[elab_as_elim]
theorem ofNat_unique {motive : Pack → Prop} {n : Nat}
    (h : ∀ p, (∀ k, toNat32? p = some k → k = n) → motive p) : motive (ofNat n) :=
  h _ fun _ => eq_of_toNat32?

theorem eq_of_toString? {s t : String} (h : toString? (str s) = some t) : t = s :=
  (Option.some.inj h).symm

variable {α : Type} {f : α → Pack} {g : Pack → Option α}

/-- What may be missing is read as it was written, if what is there is. -/
theorem eq_of_optional (hf : ∀ a, f a ≠ nil) (hg : ∀ a b, g (f a) = some b → b = a)
    {a b : Option α} (h : optional g (some (ofOption f a)) = some b) : b = a := by
  cases a with
  | none =>
    cases h
    rfl
  | some a =>
    have hne := hf a
    have hsome : optional g (some (f a)) = (g (f a)).map some := by
      cases hp : f a <;> first | rfl | exact absurd hp hne
    rw [ofOption, hsome, Option.map_eq_some_iff] at h
    obtain ⟨b, hb, rfl⟩ := h
    rw [hg a b hb]

theorem eq_of_toList? (hg : ∀ a b, g (f a) = some b → b = a) {as bs : List α}
    (h : toList? g (ofList f as) = some bs) : bs = as := by
  have hmap : (as.map f).mapM g = some bs := h
  rw [List.mapM_map] at hmap
  exact eq_of_mapM hg hmap

end Pack

open Pack

theorem TypeRef.eq_of_ofPack? {t u : TypeRef} (h : TypeRef.ofPack? t.toPack = some u) : u = t :=
  Option.some.inj (h.symm.trans t.ofPack?_toPack)

namespace Image

/-! ## Expressions -/

mutual

theorem Expr.eq_of_ofPack? : ∀ (e : Expr) {n : Nat} {e' : Expr},
    Expr.ofPack? n e.toPack = some e' → e' = e
  | _, 0, _ => by
    intro h
    rw [ofPack?] at h
    cases h
  | .const c, n + 1, e' => by
    intro h
    exact Option.some.inj (h.symm.trans (ofPack?_const n c))
  | .slot s, n + 1, e' => by
    intro h
    rw [ofPack?_slot] at h
    obtain ⟨s', hs, h⟩ := Option.bind_eq_some_iff.1 h
    cases h
    rw [eq_of_toNat32? hs]
  | .self, n + 1, e' => by
    intro h
    exact Option.some.inj (h.symm.trans (ofPack?_self n))
  | .type t, n + 1, e' => by
    intro h
    exact Option.some.inj (h.symm.trans (ofPack?_type n t))
  | .list items, n + 1, e' => by
    intro h
    rw [ofPack?_list] at h
    obtain ⟨items', hitems, h⟩ := Option.bind_eq_some_iff.1 h
    cases h
    rw [Expr.eq_of_toList? items hitems]
  | .new t args, n + 1, e' => by
    intro h
    rw [ofPack?_new] at h
    obtain ⟨args', hargs, h⟩ := Option.bind_eq_some_iff.1 h
    cases h
    rw [Expr.eq_of_toList? args hargs]
  | .field e name, n + 1, e' => by
    intro h
    rw [ofPack?_field] at h
    obtain ⟨target, htarget, h⟩ := Option.bind_eq_some_iff.1 h
    cases h
    rw [Expr.eq_of_ofPack? e htarget]
  | .staticField t name, n + 1, e' => by
    intro h
    exact Option.some.inj (h.symm.trans (ofPack?_staticField n t name))
  | .call e method args, n + 1, e' => by
    intro h
    rw [ofPack?_call] at h
    obtain ⟨target, htarget, h⟩ := Option.bind_eq_some_iff.1 h
    obtain ⟨args', hargs, h⟩ := Option.bind_eq_some_iff.1 h
    cases h
    rw [Expr.eq_of_ofPack? e htarget, Expr.eq_of_toList? args hargs]
  | .staticCall t method args, n + 1, e' => by
    intro h
    rw [ofPack?_staticCall] at h
    obtain ⟨args', hargs, h⟩ := Option.bind_eq_some_iff.1 h
    cases h
    rw [Expr.eq_of_toList? args hargs]
  | .index e i, n + 1, e' => by
    intro h
    rw [ofPack?_index] at h
    obtain ⟨target, htarget, h⟩ := Option.bind_eq_some_iff.1 h
    obtain ⟨i', hi, h⟩ := Option.bind_eq_some_iff.1 h
    cases h
    rw [Expr.eq_of_ofPack? e htarget, Expr.eq_of_ofPack? i hi]
  | .unary op e, n + 1, e' => by
    intro h
    rw [ofPack?_unary] at h
    obtain ⟨operand, hoperand, h⟩ := Option.bind_eq_some_iff.1 h
    cases h
    rw [Expr.eq_of_ofPack? e hoperand]
  | .binary op a b, n + 1, e' => by
    intro h
    rw [ofPack?_binary] at h
    obtain ⟨a', ha, h⟩ := Option.bind_eq_some_iff.1 h
    obtain ⟨b', hb, h⟩ := Option.bind_eq_some_iff.1 h
    cases h
    rw [Expr.eq_of_ofPack? a ha, Expr.eq_of_ofPack? b hb]
  | .await e, n + 1, e' => by
    intro h
    rw [ofPack?_await] at h
    obtain ⟨operand, hoperand, h⟩ := Option.bind_eq_some_iff.1 h
    cases h
    rw [Expr.eq_of_ofPack? e hoperand]

theorem Expr.eq_of_toList? : ∀ (es : List Expr) {n : Nat} {es' : List Expr},
    toList? (Expr.ofPack? n) (.array (Expr.toPacks es)) = some es' → es' = es
  | [], _, _ => by
    intro h
    cases h
    rfl
  | e :: es, n, es' => by
    intro h
    rw [toList?, toPacks, List.mapM_cons, Option.bind_eq_bind, Option.bind_eq_some_iff] at h
    obtain ⟨e', he, h⟩ := h
    rw [Option.bind_eq_bind, Option.bind_eq_some_iff] at h
    obtain ⟨rest, hrest, h⟩ := h
    cases h
    rw [Expr.eq_of_ofPack? e he, Expr.eq_of_toList? es hrest]

end

theorem Place.eq_of_ofPack? {p p' : Place} {n : Nat} (h : Place.ofPack? n p.toPack = some p') :
    p' = p := by
  cases p with
  | slot s =>
    rw [ofPack?_slot] at h
    obtain ⟨s', hs, h⟩ := Option.bind_eq_some_iff.1 h
    cases h
    rw [eq_of_toNat32? hs]
  | field e name =>
    rw [ofPack?_field] at h
    obtain ⟨target, htarget, h⟩ := Option.bind_eq_some_iff.1 h
    cases h
    rw [e.eq_of_ofPack? htarget]
  | staticField t name => exact Option.some.inj (h.symm.trans (ofPack?_staticField n name t))
  | index e i =>
    rw [ofPack?_index] at h
    obtain ⟨target, htarget, h⟩ := Option.bind_eq_some_iff.1 h
    obtain ⟨i', hi, h⟩ := Option.bind_eq_some_iff.1 h
    cases h
    rw [e.eq_of_ofPack? htarget, i.eq_of_ofPack? hi]

/-! ## Statements -/

theorem Expr.eq_of_optional {e e' : Option Expr} {n : Nat}
    (h : optional (Expr.ofPack? n) (some (ofOption Expr.toPack e)) = some e') : e' = e :=
  Pack.eq_of_optional Expr.toPack_ne_nil (fun e _ h => e.eq_of_ofPack? h) h

/-- The slot of an exception may be missing, and no slot is written as nothing. -/
theorem eq_of_optional_slot {s s' : Option Nat}
    (h : optional toNat32? (some (ofOption ofNat s)) = some s') : s' = s :=
  Pack.eq_of_optional (fun _ => Pack.noConfusion) (fun _ _ => eq_of_toNat32?) h

mutual

theorem Stmt.eq_of_ofPack? : ∀ (s : Stmt) {n : Nat} {s' : Stmt},
    Stmt.ofPack? n s.toPack = some s' → s' = s
  | _, 0, _ => by
    intro h
    rw [ofPack?] at h
    cases h
  -- The line comes first in every statement, then what the variant holds.
  | .declare l s init, n + 1, s' => by
    intro h
    simp only [ofPack?_declare, Option.bind_eq_bind, Option.bind_eq_some_iff, Option.pure_def,
      Option.some.injEq] at h
    obtain ⟨l', hl, slot, hslot, init', hinit, rfl⟩ := h
    rw [eq_of_toNat32? hl, eq_of_toNat32? hslot, Expr.eq_of_optional hinit]
  | .assign l place e, n + 1, s' => by
    intro h
    simp only [ofPack?_assign, Option.bind_eq_bind, Option.bind_eq_some_iff, Option.pure_def,
      Option.some.injEq] at h
    obtain ⟨l', hl, place', hplace, e', he, rfl⟩ := h
    rw [eq_of_toNat32? hl, Place.eq_of_ofPack? hplace, e.eq_of_ofPack? he]
  | .expr l e, n + 1, s' => by
    intro h
    simp only [ofPack?_expr, Option.bind_eq_bind, Option.bind_eq_some_iff, Option.pure_def,
      Option.some.injEq] at h
    obtain ⟨l', hl, e', he, rfl⟩ := h
    rw [eq_of_toNat32? hl, e.eq_of_ofPack? he]
  | .cond l c a b, n + 1, s' => by
    intro h
    simp only [ofPack?_cond, Option.bind_eq_bind, Option.bind_eq_some_iff, Option.pure_def,
      Option.some.injEq] at h
    obtain ⟨l', hl, c', hc, a', ha, b', hb, rfl⟩ := h
    rw [eq_of_toNat32? hl, c.eq_of_ofPack? hc, Stmt.eq_of_toList? a ha, Stmt.eq_of_toList? b hb]
  | .whileLoop l c b, n + 1, s' => by
    intro h
    simp only [ofPack?_whileLoop, Option.bind_eq_bind, Option.bind_eq_some_iff, Option.pure_def,
      Option.some.injEq] at h
    obtain ⟨l', hl, c', hc, b', hb, rfl⟩ := h
    rw [eq_of_toNat32? hl, c.eq_of_ofPack? hc, Stmt.eq_of_toList? b hb]
  | .forLoop l s e b, n + 1, s' => by
    intro h
    simp only [ofPack?_forLoop, Option.bind_eq_bind, Option.bind_eq_some_iff, Option.pure_def,
      Option.some.injEq] at h
    obtain ⟨l', hl, slot, hslot, e', he, b', hb, rfl⟩ := h
    rw [eq_of_toNat32? hl, eq_of_toNat32? hslot, e.eq_of_ofPack? he, Stmt.eq_of_toList? b hb]
  | .ret l e, n + 1, s' => by
    intro h
    simp only [ofPack?_ret, Option.bind_eq_bind, Option.bind_eq_some_iff, Option.pure_def,
      Option.some.injEq] at h
    obtain ⟨l', hl, e', he, rfl⟩ := h
    rw [eq_of_toNat32? hl, Expr.eq_of_optional he]
  | .throw l e, n + 1, s' => by
    intro h
    simp only [ofPack?_throw, Option.bind_eq_bind, Option.bind_eq_some_iff, Option.pure_def,
      Option.some.injEq] at h
    obtain ⟨l', hl, e', he, rfl⟩ := h
    rw [eq_of_toNat32? hl, e.eq_of_ofPack? he]
  | .tryCatch l b s r, n + 1, s' => by
    intro h
    simp only [ofPack?_tryCatch, Option.bind_eq_bind, Option.bind_eq_some_iff, Option.pure_def,
      Option.some.injEq] at h
    obtain ⟨l', hl, b', hb, slot, hslot, r', hr, rfl⟩ := h
    rw [eq_of_toNat32? hl, Stmt.eq_of_toList? b hb, eq_of_optional_slot hslot,
      Stmt.eq_of_toList? r hr]
  | .breakLoop l, n + 1, s' => by
    intro h
    simp only [ofPack?_breakLoop, Option.bind_eq_bind, Option.bind_eq_some_iff, Option.pure_def,
      Option.some.injEq] at h
    obtain ⟨l', hl, rfl⟩ := h
    rw [eq_of_toNat32? hl]
  | .continueLoop l, n + 1, s' => by
    intro h
    simp only [ofPack?_continueLoop, Option.bind_eq_bind, Option.bind_eq_some_iff, Option.pure_def,
      Option.some.injEq] at h
    obtain ⟨l', hl, rfl⟩ := h
    rw [eq_of_toNat32? hl]
  | .block l b, n + 1, s' => by
    intro h
    simp only [ofPack?_block, Option.bind_eq_bind, Option.bind_eq_some_iff, Option.pure_def,
      Option.some.injEq] at h
    obtain ⟨l', hl, b', hb, rfl⟩ := h
    rw [eq_of_toNat32? hl, Stmt.eq_of_toList? b hb]

theorem Stmt.eq_of_toList? : ∀ (ss : List Stmt) {n : Nat} {ss' : List Stmt},
    toList? (Stmt.ofPack? n) (.array (Stmt.toPacks ss)) = some ss' → ss' = ss
  | [], _, _ => by
    intro h
    cases h
    rfl
  | s :: ss, n, ss' => by
    intro h
    rw [toList?, toPacks, List.mapM_cons, Option.bind_eq_bind, Option.bind_eq_some_iff] at h
    obtain ⟨s', hs, h⟩ := h
    rw [Option.bind_eq_bind, Option.bind_eq_some_iff] at h
    obtain ⟨rest, hrest, h⟩ := h
    cases h
    rw [Stmt.eq_of_ofPack? s hs, Stmt.eq_of_toList? ss hrest]

end

end Image

/-! ## Definitions -/

variable {n : Nat}

theorem FieldDef.eq_of_ofPack? {f g : FieldDef} (h : FieldDef.ofPack? n f.toPack = some g) :
    g = f := by
  rw [toPack] at h
  revert h
  refine ofNat_unique fun p hp h => ?_
  rw [ofPack?, fields?_record (by rfl) (by decide)] at h
  simp only [List.map_cons, List.map_nil, Option.bind_eq_bind, Option.bind_some,
    Option.bind_eq_some_iff, required, toString?, toBool?, Option.pure_def, Option.some.injEq] at h
  obtain ⟨init, hinit, line, hline, rfl⟩ := h
  rw [Image.Expr.eq_of_optional hinit, hp line hline]

theorem MethodDef.eq_of_ofPack? {m m' : MethodDef} (h : MethodDef.ofPack? n m.toPack = some m') :
    m' = m := by
  have hbody {b : Option (List Image.Stmt)} (h : optional (toList? (Image.Stmt.ofPack? n))
      (some (ofOption (ofList Image.Stmt.toPack) m.body)) = some b) : b = m.body :=
    eq_of_optional (fun _ => Pack.noConfusion)
      (fun _ _ h => eq_of_toList? (fun s _ h => s.eq_of_ofPack? h) h) h
  have hparams {ps : List ParamDef} (h : toList? ParamDef.ofPack?
      (ofList ParamDef.toPack m.params) = some ps) : ps = m.params :=
    eq_of_toList? (fun p _ h => Option.some.inj (h.symm.trans p.ofPack?_toPack)) h
  have hreturns {r : Option String} (h : optional toString? (some (ofOption .str m.returns)) =
      some r) : r = m.returns :=
    eq_of_optional (fun _ => Pack.noConfusion) (fun _ _ => eq_of_toString?) h
  rw [toPack] at h
  revert h
  refine ofNat_unique fun slots hslots => ofNat_unique fun line hline h => ?_
  rw [ofPack?, fields?_record (by rfl) (by decide)] at h
  simp only [List.map_cons, List.map_nil, Option.bind_eq_bind, Option.bind_some,
    Option.bind_eq_some_iff, required, toString?, toBool?, ReturnShape.ofPack?_name,
    Option.pure_def, Option.some.injEq] at h
  obtain ⟨ps, hps, r, hr, k, hk, b, hb, l, hl, rfl⟩ := h
  rw [hparams hps, hreturns hr, hslots k hk, hbody hb, hline l hl]

theorem TypeDef.eq_of_ofPack? {t u : TypeDef} (h : TypeDef.ofPack? n t.toPack = some u) :
    u = t := by
  have hgenerics {gs : List String} (h : toList? toString? (ofList .str t.generics) = some gs) :
      gs = t.generics :=
    eq_of_toList? (fun _ _ => eq_of_toString?) h
  have hbase {b : Option TypeRef} (h : optional TypeRef.ofPack?
      (some (ofOption TypeRef.toPack t.base)) = some b) : b = t.base :=
    eq_of_optional TypeRef.toPack_ne_nil (fun _ _ => TypeRef.eq_of_ofPack?) h
  have hcapabilities {cs : List TypeRef} (h : toList? TypeRef.ofPack?
      (ofList TypeRef.toPack t.capabilities) = some cs) : cs = t.capabilities :=
    eq_of_toList? (fun _ _ => TypeRef.eq_of_ofPack?) h
  have hfields {fs : List FieldDef} (h : toList? (FieldDef.ofPack? n)
      (ofList FieldDef.toPack t.fields) = some fs) : fs = t.fields :=
    eq_of_toList? (fun _ _ => FieldDef.eq_of_ofPack?) h
  have hmethods {ms : List MethodDef} (h : toList? (MethodDef.ofPack? n)
      (ofList MethodDef.toPack t.methods) = some ms) : ms = t.methods :=
    eq_of_toList? (fun _ _ => MethodDef.eq_of_ofPack?) h
  rw [toPack, ofPack?, fields?_record (by rfl) (by decide)] at h
  simp only [List.map_cons, List.map_nil, Option.bind_eq_bind, Option.bind_some,
    Option.bind_eq_some_iff, required, toString?, toBool?, ClassKind.ofPack?_name,
    Option.pure_def, Option.some.injEq] at h
  obtain ⟨gs, hgs, b, hb, cs, hcs, fs, hfs, ms, hms, rfl⟩ := h
  rw [hgenerics hgs, hbase hb, hcapabilities hcs, hfields hfs, hmethods hms]

theorem Image.eq_of_ofPack? {i j : Image} (h : Image.ofPack? n i.toPack = some j) : j = i := by
  have hreferences {rs : List String} (h : toList? toString? (ofList .str i.references) = some rs) :
      rs = i.references :=
    eq_of_toList? (fun _ _ => eq_of_toString?) h
  have htypes {ts : List TypeDef} (h : toList? (TypeDef.ofPack? n)
      (ofList TypeDef.toPack i.types) = some ts) : ts = i.types :=
    eq_of_toList? (fun _ _ => TypeDef.eq_of_ofPack?) h
  rw [toPack] at h
  revert h
  refine ofNat_unique fun p hp h => ?_
  rw [ofPack?, fields?_record (by rfl) (by decide)] at h
  simp only [List.map_cons, List.map_nil, Option.bind_eq_bind, Option.bind_some,
    Option.bind_eq_some_iff, required, toString?, OutputKind.ofPack?_name, Option.pure_def,
    Option.some.injEq] at h
  obtain ⟨version, hversion, rs, hrs, ts, hts, rfl⟩ := h
  rw [hp version hversion, hreferences hrs, htypes hts]

/-- An image that can be written is read back as it was, if it is read back. -/
theorem Image.eq_of_decode {i j : Image} (hi : i.toPack.isWritable)
    (hj : Image.decode i.encode = .ok j) : j = i := by
  rcases Nat.lt_or_ge maxDepth i.toPack.nesting with hdeep | hshallow
  · have herror := Image.decode_eq_error (ofBytes_write_tooDeep hi hdeep)
    rw [Image.encode, herror] at hj
    cases hj
  exact Image.eq_of_ofPack? (Image.of_decode (ofBytes_write_self hi hshallow) hj)

end GenLang
