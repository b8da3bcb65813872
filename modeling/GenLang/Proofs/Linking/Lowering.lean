import GenLang.Proofs.Linking.Table
import GenLang.Proofs.Linking.Link
import GenLang.Lowering

/-!
# What lowering without errors gives

Lowering goes on after an error and puts something in the place of what it cannot resolve. So what
is known of its result is known of runs that report no error, and `Ensures` is stated for these.
-/

namespace GenLang

open Text

/-! ## Runs that report no error -/

def LoweringState.Clean (s : LoweringState) : Prop :=
  ∀ d ∈ s.diagnostics, d.isError = false

namespace Lowering

variable {α β : Type} {c : LoweringContext}

/-- Lowering never stops, so that what comes first always has a result and a state behind it. -/
theorem exists_of_run_bind {x : Lowering α} {f : α → Lowering β} {s s' : LoweringState} {b : β}
    (h : ((x >>= f).run c).run s = (b, s')) :
    ∃ a t, (x.run c).run s = (a, t) ∧ ((f a).run c).run t = (b, s') :=
  ⟨_, _, rfl, h⟩

/-- If no error is reported, none was before, and the result is as wanted. -/
def Ensures (c : LoweringContext) (x : Lowering α) (P : α → Prop) : Prop :=
  ∀ s a s', (x.run c).run s = (a, s') → s'.Clean → s.Clean ∧ P a

theorem ensures_pure {P : α → Prop} {a : α} (h : P a) : Ensures c (pure a) P := by
  rintro s _ _ ⟨⟩ hclean
  exact ⟨hclean, h⟩

/-- What follows must not take errors back, whatever it follows. -/
theorem ensures_bind {x : Lowering α} {f : α → Lowering β} {P : α → Prop} {Q : β → Prop}
    (hx : Ensures c x P) (hf : ∀ a, Ensures c (f a) fun b => P a → Q b) :
    Ensures c (x >>= f) Q := by
  intro s b s' h hclean
  obtain ⟨a, t, hrun, hrest⟩ := exists_of_run_bind h
  obtain ⟨ht, hb⟩ := hf a t b s' hrest hclean
  obtain ⟨hs, ha⟩ := hx s a t hrun ht
  exact ⟨hs, hb ha⟩

theorem Ensures.imp {x : Lowering α} {P Q : α → Prop} (h : Ensures c x P) (hPQ : ∀ a, P a → Q a) :
    Ensures c x Q := by
  intro s a s' hrun hclean
  obtain ⟨hs, ha⟩ := h s a s' hrun hclean
  exact ⟨hs, hPQ a ha⟩

theorem ensures_map {x : Lowering α} {f : α → β} {P : α → Prop} {Q : β → Prop} (h : Ensures c x P)
    (hPQ : ∀ a, P a → Q (f a)) : Ensures c (f <$> x) Q :=
  ensures_bind h fun a => ensures_pure (hPQ a)

theorem ensures_read : Ensures c read (· = c) := by
  rintro s _ _ ⟨⟩ hclean
  exact ⟨hclean, rfl⟩

theorem ensures_get : Ensures c get fun _ => True := by
  rintro s _ _ ⟨⟩ hclean
  exact ⟨hclean, trivial⟩

theorem ensures_modify {f : LoweringState → LoweringState} (hf : ∀ s, (f s).Clean → s.Clean) :
    Ensures c (modify f) fun _ => True := by
  rintro s _ _ ⟨⟩ hclean
  exact ⟨hf s hclean, trivial⟩

theorem isError_diagnostic (sources : Sources) (code : Code) (file : String) (span : Span)
    (message : String) :
    (sources.diagnostic code file span message).isError = (code.severity == .error) := by
  unfold Sources.diagnostic
  cases sources.text? file <;> rfl

theorem ensures_report (code : Code) (span : Span) (message : String) :
    Ensures c (report code span message) fun _ => code.severity ≠ .error := by
  rintro s _ _ ⟨⟩ hclean
  refine ⟨fun d hd => hclean d (Array.mem_push_of_mem _ hd), fun hcode => ?_⟩
  have herror := hclean _ (Array.mem_push_self)
  rw [isError_diagnostic, hcode] at herror
  cases herror

/-- Behind an error everything is as wanted. -/
theorem ensures_error {code : Code} (hcode : code.severity = .error) (span : Span)
    (message : String) : Ensures c (report code span message) fun _ => False :=
  (ensures_report code span message).imp fun _ h => h hcode

/-- What comes behind an error does not matter, as long as it is only a value. -/
theorem ensures_error_pure {x : Lowering β} (hx : Ensures c x fun _ => False) {a : α}
    {P : α → Prop} : Ensures c (x >>= fun _ => pure a) P :=
  ensures_bind hx fun _ => ensures_pure False.elim

theorem ensures_forM {f : α → Lowering Unit} (h : ∀ a, Ensures c (f a) fun _ => True)
    (as : List α) : Ensures c (as.forM f) fun _ => True := by
  induction as with
  | nil => exact ensures_pure trivial
  | cons a as ih => exact ensures_bind (h a) fun _ => ih.imp fun _ _ _ => trivial

theorem ensures_mapM {f : α → Lowering β} {P : α → β → Prop} (h : ∀ a, Ensures c (f a) (P a))
    (as : List α) : Ensures c (as.mapM f) (List.Forall₂ P as) := by
  induction as with
  | nil =>
    rw [List.mapM_nil]
    exact ensures_pure .nil
  | cons a as ih =>
    rw [List.mapM_cons]
    refine ensures_bind (h a) fun b => ensures_bind ih fun bs => ensures_pure ?_
    exact fun hbs hb => .cons hb hbs

theorem map_eq_of_forall₂ {P : α → β → Prop} {γ : Type} {f : α → γ} {g : β → γ}
    (h : ∀ a b, P a b → f a = g b) {as : List α} {bs : List β} (hall : List.Forall₂ P as bs) :
    as.map f = bs.map g := by
  induction hall with
  | nil => rfl
  | cons hab _ ih => rw [List.map_cons, List.map_cons, h _ _ hab, ih]

theorem exists_of_forall₂_left {P : α → β → Prop} {as : List α} {bs : List β}
    (hall : List.Forall₂ P as bs) {a : α} (ha : a ∈ as) : ∃ b ∈ bs, P a b := by
  induction hall with
  | nil => cases ha
  | cons hab _ ih =>
    rcases List.mem_cons.1 ha with rfl | ha
    · exact ⟨_, List.mem_cons_self, hab⟩
    · obtain ⟨b, hb, hab⟩ := ih ha
      exact ⟨b, List.mem_cons_of_mem _ hb, hab⟩

theorem exists_of_forall₂_right {P : α → β → Prop} {as : List α} {bs : List β}
    (hall : List.Forall₂ P as bs) {b : β} (hb : b ∈ bs) : ∃ a ∈ as, P a b := by
  induction hall with
  | nil => cases hb
  | cons hab _ ih =>
    rcases List.mem_cons.1 hb with rfl | hb
    · exact ⟨_, List.mem_cons_self, hab⟩
    · obtain ⟨a, ha, hab⟩ := ih hb
      exact ⟨a, List.mem_cons_of_mem _ ha, hab⟩

/-! ## Scopes -/

theorem ensures_lookup (name : String) : Ensures c (lookup name) fun _ => True :=
  ensures_bind ensures_get fun _ => ensures_pure fun _ => trivial

theorem ensures_lineOf (span : Span) : Ensures c (lineOf span) fun _ => True :=
  ensures_bind ensures_read fun _ => ensures_pure fun _ => trivial

theorem ensures_reportUnused (slot : Nat) : Ensures c (reportUnused slot) fun _ => True := by
  refine ensures_bind ensures_get fun s => ?_
  split
  · split
    · exact (ensures_report _ _ _).imp fun _ _ _ => trivial
    · exact ensures_pure fun _ => trivial
  · exact ensures_pure fun _ => trivial

theorem ensures_popScope : Ensures c popScope fun _ => True := by
  refine ensures_bind ensures_get fun s => ?_
  split
  · exact ensures_pure fun _ => trivial
  · next scope rest _ =>
    refine ensures_bind (ensures_modify fun _ h => h) fun _ => ?_
    exact (ensures_forM ensures_reportUnused scope).imp fun _ _ _ _ => trivial

theorem ensures_inScope {body : Lowering α} {P : α → Prop} (h : Ensures c body P) :
    Ensures c (inScope body) P := by
  refine ensures_bind (P := fun _ => True) (ensures_modify fun _ h => h) fun _ => ?_
  refine ensures_bind h fun a => ensures_bind ensures_popScope fun _ => ?_
  exact ensures_pure fun _ ha _ => ha

theorem ensures_declare (name : Ident) (warnUnused : Bool) :
    Ensures c (declare name warnUnused) fun _ => True := by
  refine ensures_bind (ensures_lookup name.name) fun _ => ?_
  split
  · refine ensures_bind (ensures_report _ _ _) fun _ => ensures_bind ensures_get fun _ => ?_
    exact ensures_bind (ensures_modify fun _ h => h) fun _ => ensures_pure fun _ _ _ _ => trivial
  · refine ensures_bind ensures_get fun _ => ?_
    exact ensures_bind (ensures_modify fun _ h => h) fun _ => ensures_pure fun _ _ _ => trivial

theorem ensures_markUsed (slot : Nat) : Ensures c (markUsed slot) fun _ => True :=
  ensures_modify fun _ h => h

/-! ## Names -/

end Lowering

/-- What a table says of a link: that it has the type, and that the type itself declares the
member. -/
def Link.Known (s : SymbolTable) : Link → Prop
  | type r => ∃ t ∈ s.types, t.ref = r
  | call owner method count =>
    ∃ t ∈ s.types, t.ref = owner ∧ ∃ m, t.method? method = some m ∧ m.isStatic ∧ m.accepts count
  | field owner name => ∃ t ∈ s.types, t.ref = owner ∧ ∃ f, t.field? name = some f ∧ f.isStatic

/-- A table knows all of some links. -/
def AllKnown (s : SymbolTable) (links : List Link) : Prop :=
  ∀ l ∈ links, l.Known s

/-- Whether an object of a type may be made with so many arguments: the constructor takes them, or
there is none and neither are there arguments. -/
def SymbolTable.constructs (s : SymbolTable) (type : String) (count : Nat) : Bool :=
  match s.constructor? type with
  | some m => m.accepts count
  | none => count == 0

/-- What a table says of a site: that it knows the links there, and where an object is made, that
the type is a class, neither abstract nor static, whose constructor takes the arguments. -/
def Site.Known (s : SymbolTable) : Site → Prop
  | new r count =>
    ∃ t ∈ s.types, t.ref = r ∧ (t.isCapability || t.isAbstract || t.isStatic) = false ∧
      s.constructs t.name count
  | site => AllKnown s site.links

/-- A table knows all of some sites. -/
def SitesKnown (s : SymbolTable) (sites : List Site) : Prop :=
  ∀ site ∈ sites, site.Known s

@[simp] theorem sitesKnown_nil {s : SymbolTable} : SitesKnown s [] :=
  fun _ h => absurd h List.not_mem_nil

@[simp] theorem sitesKnown_cons {s : SymbolTable} {site : Site} {sites : List Site} :
    SitesKnown s (site :: sites) ↔ site.Known s ∧ SitesKnown s sites :=
  List.forall_mem_cons

@[simp] theorem sitesKnown_append {s : SymbolTable} {sites others : List Site} :
    SitesKnown s (sites ++ others) ↔ SitesKnown s sites ∧ SitesKnown s others :=
  List.forall_mem_append

theorem Site.allKnown {s : SymbolTable} {site : Site} (h : site.Known s) :
    AllKnown s site.links := by
  cases site with
  | new r count =>
    obtain ⟨t, ht, href, -⟩ := h
    exact List.forall_mem_singleton.2 ⟨t, ht, href⟩
  | type _ | call _ _ _ | field _ _ => exact h

theorem SitesKnown.allKnown {s : SymbolTable} {sites : List Site} (h : SitesKnown s sites) :
    AllKnown s (sites.flatMap Site.links) := by
  intro l hl
  obtain ⟨site, hsite, hl⟩ := List.mem_flatMap.1 hl
  exact Site.allKnown (h site hsite) l hl

namespace SymbolTable

variable {s : SymbolTable} {type member : String} {owner : TypeSymbol}

theorem ancestors_subset (s : SymbolTable) (name : String) : s.ancestors name ⊆ s.types := by
  intro t ht
  obtain ⟨n, -, hfind⟩ := List.mem_filterMap.1 ht
  exact (mem_of_find? hfind).1

/-- A field that is found is declared in a type itself or above. -/
theorem ancestor_of_member? {f : FieldSymbol}
    (h : s.member? type member = some (owner, .field f)) :
    owner ∈ s.ancestors type ∧ owner.field? member = some f := by
  obtain ⟨t, ht, hmember⟩ := List.exists_of_findSome?_eq_some h
  cases hfield : t.field? member with
  | none =>
    rw [hfield] at hmember
    obtain ⟨m, -, hm⟩ := Option.map_eq_some_iff.1 hmember
    cases hm
  | some g =>
    rw [hfield] at hmember
    cases hmember
    exact ⟨ht, hfield⟩

theorem field_of_member? {f : FieldSymbol} (h : s.member? type member = some (owner, .field f)) :
    owner ∈ s.types ∧ owner.field? f.name = some f := by
  obtain ⟨howner, hfield⟩ := ancestor_of_member? h
  have hname : f.name = member := by simpa using List.find?_some hfield
  exact ⟨ancestors_subset s type howner, hname ▸ hfield⟩

theorem method_of_method? {m : MethodSymbol} (h : s.method? type member = some (owner, m)) :
    owner ∈ s.types ∧ m.name = member ∧ owner.method? member = some m := by
  obtain ⟨t, ht, hmethod⟩ := List.exists_of_findSome?_eq_some h
  obtain ⟨n, hn, heq⟩ := Option.map_eq_some_iff.1 hmethod
  cases heq
  exact ⟨ancestors_subset s type ht, by simpa using List.find?_some hn, hn⟩

/-- A static field that was found is known where it is used. -/
theorem known_field {f : FieldSymbol} (h : s.member? type member = some (owner, .field f))
    (hstatic : f.isStatic) : (Site.field owner.ref f.name).Known s := by
  obtain ⟨hmem, hfield⟩ := field_of_member? h
  have hlink : (Link.field owner.ref f.name).Known s := ⟨owner, hmem, rfl, f, hfield, hstatic⟩
  exact List.forall_mem_cons.2 ⟨⟨owner, hmem, rfl⟩, List.forall_mem_singleton.2 hlink⟩

/-- A static method that was found is known where it is called. -/
theorem known_call {m : MethodSymbol} (h : s.method? type member = some (owner, m))
    (hstatic : m.isStatic) {count : Nat} (haccepts : m.accepts count) :
    (Site.call owner.ref member count).Known s := by
  obtain ⟨hmem, -, hfind⟩ := method_of_method? h
  have hlink : (Link.call owner.ref member count).Known s :=
    ⟨owner, hmem, rfl, m, hfind, hstatic, haccepts⟩
  exact List.forall_mem_cons.2 ⟨⟨owner, hmem, rfl⟩, List.forall_mem_singleton.2 hlink⟩

/-- A type that was found is known where it is a value. -/
theorem known_type {t : TypeSymbol} (h : s.find? member = some t) : (Site.type t.ref).Known s :=
  List.forall_mem_singleton.2 ⟨t, (mem_of_find? h).1, rfl⟩

end SymbolTable

namespace Lowering

open SymbolTable

/-- What is known of a name that was resolved. -/
def Resolved.Known (s : SymbolTable) : Resolved → Prop
  | slot _ | instanceField _ => True
  | staticField owner name => (Site.field owner name).Known s
  | type t => (Site.type t).Known s

theorem ensures_resolve (name : String) (span : Span) :
    Ensures c (resolve name span) fun r => ∃ x, r = some x ∧ x.Known c.table := by
  refine ensures_bind ensures_read fun c' => ensures_bind (ensures_lookup name) fun slot => ?_
  cases slot with
  | some slot => exact ensures_pure fun _ _ => ⟨_, rfl, trivial⟩
  -- Not a variable: a member, static or of the receiver, and then a type. What remains is an error.
  | none =>
    dsimp only
    split
    · next declaring f hmember =>
      split
      · next hstatic =>
        refine ensures_pure fun _ hc => ⟨_, rfl, ?_⟩
        subst hc
        exact known_field hmember hstatic
      · split
        · exact ensures_error_pure (ensures_error rfl _ _)
        · exact ensures_pure fun _ _ => ⟨_, rfl, trivial⟩
    · exact ensures_error_pure (ensures_error rfl _ _)
    · split
      · next t hfind =>
        refine ensures_pure fun _ hc => ⟨_, rfl, ?_⟩
        subst hc
        exact known_type hfind
      · exact ensures_error_pure (ensures_error rfl _ _)

theorem ensures_isFree (name : String) : Ensures c (isFree name) fun _ => True :=
  ensures_bind ensures_read fun _ => ensures_bind (ensures_lookup name) fun _ =>
    ensures_pure fun _ _ => trivial

/-- What is known of what is in front of a dot. -/
def Receiver.Known (s : SymbolTable) : Receiver → Prop
  | type t => t ∈ s.types
  | value e => SitesKnown s e.sites
  | unresolved => False

theorem ensures_receiver {e : Expr} {value : Lowering Image.Expr}
    (h : Ensures c value fun v => SitesKnown c.table v.sites) :
    Ensures c (receiver e value) (Receiver.Known c.table) := by
  have hvalue : Ensures c (do return Receiver.value (← value)) (Receiver.Known c.table) :=
    ensures_bind h fun v => ensures_pure fun hv => hv
  unfold receiver
  split
  · next span name =>
    refine ensures_bind (ensures_isFree name) fun free => ?_
    cases free with
    | false => exact hvalue.imp fun _ h _ => h
    | true =>
      refine ensures_bind ensures_read fun c' => ?_
      split
      · next t hfind =>
        refine ensures_pure fun hc _ => ?_
        subst hc
        exact (mem_of_find? hfind).1
      · exact ensures_error_pure (ensures_error rfl _ _)
  · exact hvalue

/-! ## Calls -/

theorem ensures_calledType (target : Expr) : Ensures c (calledType target) fun _ => True := by
  unfold calledType
  split
  · refine ensures_bind (ensures_isFree _) fun free => ?_
    cases free <;> exact ensures_pure fun _ => trivial
  · exact ensures_bind ensures_read fun _ => ensures_pure fun _ => trivial
  · exact ensures_pure trivial

theorem ensures_recordInvocation (typeName : Option String) (method : String) (args : List Expr)
    (span : Span) : Ensures c (recordInvocation typeName method args span) fun _ => True := by
  refine ensures_bind ensures_read fun c' => ensures_bind (ensures_lineOf span) fun line => ?_
  refine Ensures.imp (P := fun _ => True) ?_ fun _ _ _ _ => trivial
  exact ensures_modify fun _ h => h

theorem ensures_checkArity (m : MethodSymbol) (count : Nat) (span : Span) :
    Ensures c (checkArity m count span) fun _ => m.accepts count := by
  unfold checkArity
  split
  · next h => exact ensures_pure h
  · exact (ensures_error rfl _ _).imp fun _ h => h.elim

theorem ensures_staticRead (t : TypeSymbol) (name : Ident) :
    Ensures c (staticRead t name) fun e => SitesKnown c.table e.sites := by
  refine ensures_bind ensures_read fun c' => ?_
  split
  · next declaring f hmember =>
    split
    · next hstatic =>
      refine ensures_pure fun hc => ?_
      subst hc
      rw [Image.Expr.sites, sitesKnown_cons]
      exact ⟨known_field hmember hstatic, sitesKnown_nil⟩
    · exact ensures_error_pure (ensures_error rfl _ _)
  · split <;> exact ensures_error_pure (ensures_error rfl _ _)
  · exact ensures_error_pure (ensures_error rfl _ _)

/-- A static call of a method that a table found is known with its arguments. -/
theorem sitesKnown_staticCall {s : SymbolTable} {type method : String} {owner : TypeSymbol}
    {m : MethodSymbol} (hmethod : s.method? type method = some (owner, m)) (hstatic : m.isStatic)
    {args : List Image.Expr} (haccepts : m.accepts args.length)
    (hargs : SitesKnown s (Image.Expr.sitesAll args)) :
    SitesKnown s (Image.Expr.staticCall owner.ref method args).sites := by
  rw [Image.Expr.sites, sitesKnown_cons]
  exact ⟨known_call hmethod hstatic haccepts, hargs⟩

section

variable {args : List Image.Expr}

theorem ensures_staticCall (t : TypeSymbol) (name : Ident) :
    Ensures c (staticCall t name args) fun e =>
      SitesKnown c.table (Image.Expr.sitesAll args) → SitesKnown c.table e.sites := by
  refine ensures_bind ensures_read fun c' => ?_
  split
  · next declaring m hmethod =>
    split
    · next hstatic =>
      refine ensures_bind (ensures_checkArity m _ _) fun _ => ?_
      refine ensures_pure fun haccepts hc hargs => ?_
      subst hc
      obtain ⟨-, hname, -⟩ := method_of_method? hmethod
      rw [hname]
      exact sitesKnown_staticCall hmethod hstatic haccepts hargs
    · exact ensures_error_pure (ensures_error rfl _ _)
  · exact ensures_error_pure (ensures_error rfl _ _)

theorem ensures_ownCall (name : String) (span : Span) :
    Ensures c (ownCall name span args) fun e =>
      SitesKnown c.table (Image.Expr.sitesAll args) → SitesKnown c.table e.sites := by
  refine ensures_bind ensures_read fun c' => ensures_bind (ensures_lookup name) fun slot => ?_
  split
  · exact ensures_error_pure (ensures_error rfl _ _)
  split
  · exact ensures_error_pure (ensures_error rfl _ _)
  · next declaring m hmethod =>
    refine ensures_bind (ensures_checkArity m _ _) fun _ => ?_
    split
    · next hstatic =>
      refine ensures_pure fun haccepts _ hc hargs => ?_
      subst hc
      exact sitesKnown_staticCall hmethod hstatic haccepts hargs
    · split
      · exact ensures_error_pure (ensures_error rfl _ _)
      · refine ensures_pure fun _ _ _ hargs => ?_
        rwa [Image.Expr.sites, Image.Expr.sites, List.nil_append]

/-- The arguments of `new` are checked against the constructor of a type that has objects. -/
theorem ensures_newObject (type : Ident) :
    Ensures c (newObject type args) fun e =>
      SitesKnown c.table (Image.Expr.sitesAll args) → SitesKnown c.table e.sites := by
  refine ensures_bind ensures_read fun c' => ?_
  dsimp only
  split
  · exact ensures_error_pure (ensures_error rfl _ _)
  · next t hfind =>
    split
    · exact ensures_error_pure (ensures_error rfl _ _)
    · next hobjects =>
      -- Whatever counts the parameters, a count that does not fit is an error.
      have hchecked (fits : Bool) (message : String)
          (hfits : fits → c'.table.constructs t.name args.length) : Ensures c (do
            if !fits then report .argumentCount type.span message
            return Image.Expr.new t.ref args) fun e => c' = c →
              SitesKnown c.table (Image.Expr.sitesAll args) → SitesKnown c.table e.sites := by
        cases fits
        · exact ensures_error_pure (ensures_error rfl _ _)
        · refine ensures_pure fun hc hargs => ?_
          subst hc
          rw [Image.Expr.sites, sitesKnown_cons]
          have hmem := (mem_of_find? hfind).1
          exact ⟨⟨t, hmem, rfl, Bool.eq_false_iff.2 hobjects, hfits rfl⟩, hargs⟩
      refine hchecked _ _ fun hfits => ?_
      unfold constructs
      cases hconstructor : c'.table.constructor? t.name with
      | some m => simpa [hconstructor] using hfits
      | none => simpa [hconstructor] using hfits

end

/-! ## Expressions -/

theorem ensures_name (span : Span) (name : String) :
    Ensures c (expr (.name span name)) fun e => SitesKnown c.table e.sites := by
  rw [expr]
  refine ensures_bind (ensures_resolve name span) fun r => ?_
  rcases r with _ | r
  · exact ensures_pure fun ⟨_, h, _⟩ => nomatch h
  · cases r with
    | slot slot =>
      exact ensures_bind (ensures_markUsed slot) fun _ => ensures_pure fun _ _ => sitesKnown_nil
    | staticField owner name =>
      refine ensures_pure fun ⟨_, h, hknown⟩ => ?_
      cases h
      rw [Image.Expr.sites, sitesKnown_cons]
      exact ⟨hknown, sitesKnown_nil⟩
    | instanceField name => exact ensures_pure fun _ => sitesKnown_nil
    | type t =>
      refine ensures_pure fun ⟨_, h, hknown⟩ => ?_
      cases h
      rw [Image.Expr.sites, sitesKnown_cons]
      exact ⟨hknown, sitesKnown_nil⟩

theorem ensures_memberCall {target : Expr} {args : List Expr} (span memberSpan : Span)
    (name : Ident) (htarget : Ensures c (expr target) fun e => SitesKnown c.table e.sites)
    (hargs : Ensures c (exprs args) fun es => SitesKnown c.table (Image.Expr.sitesAll es)) :
    Ensures c (expr (.call span (.member memberSpan target name) args)) fun e =>
      SitesKnown c.table e.sites := by
  rw [expr]
  refine ensures_bind (ensures_calledType target) fun _ => ?_
  refine ensures_bind (ensures_recordInvocation _ _ args span) fun _ => ?_
  refine ensures_bind (ensures_receiver htarget) fun r => ?_
  refine ensures_bind hargs fun es => ?_
  cases r with
  | type t => exact (ensures_staticCall t name).imp fun _ h hes _ _ _ => h hes
  | value target =>
    refine ensures_pure fun hes htarget' _ _ => ?_
    rw [Image.Expr.sites, sitesKnown_append]
    exact ⟨htarget', hes⟩
  | unresolved => exact ensures_pure fun _ h => h.elim

mutual

theorem ensures_expr : ∀ e : Expr, Ensures c (expr e) fun e' => SitesKnown c.table e'.sites
  | .lit _ value => by
    rw [expr]
    exact ensures_pure sitesKnown_nil
  | .name span name => ensures_name span name
  | .self span => by
    rw [expr]
    refine ensures_bind ensures_read fun c' => ?_
    split
    · exact ensures_error_pure (ensures_error rfl _ _)
    · exact ensures_pure fun _ => sitesKnown_nil
  | .list _ items => by
    rw [expr]
    refine ensures_bind (ensures_exprs items) fun es => ensures_pure fun hes => ?_
    rwa [Image.Expr.sites]
  | .new _ type args => by
    rw [expr]
    refine ensures_bind (ensures_exprs args) fun es => ?_
    exact (ensures_newObject type).imp fun _ h => h
  | .member _ target name => by
    rw [expr]
    refine ensures_bind (ensures_receiver (ensures_expr target)) fun r => ?_
    cases r with
    | type t => exact (ensures_staticRead t name).imp fun _ h _ => h
    | value target =>
      refine ensures_pure fun htarget => ?_
      rwa [Image.Expr.sites]
    | unresolved => exact ensures_pure False.elim
  | .call span (.member memberSpan target name) args =>
    ensures_memberCall span memberSpan name (ensures_expr target) (ensures_exprs args)
  | .call span (.name nameSpan name) args => by
    rw [expr]
    refine ensures_bind ensures_read fun c' => ?_
    refine ensures_bind (ensures_recordInvocation _ _ args span) fun _ => ?_
    refine ensures_bind (ensures_exprs args) fun es => ?_
    exact (ensures_ownCall name nameSpan).imp fun _ h hes _ _ => h hes
  | .call _ (.lit _ _) args | .call _ (.self _) args | .call _ (.list _ _) args
  | .call _ (.new _ _ _) args | .call _ (.call _ _ _) args | .call _ (.index _ _ _) args
  | .call _ (.unary _ _ _) args | .call _ (.binary _ _ _ _) args | .call _ (.await _ _) args => by
    -- Only methods are called.
    rw [expr]
    · refine ensures_bind (ensures_expr _) fun _ => ensures_bind (ensures_exprs args) fun _ => ?_
      exact ensures_error_pure (ensures_error rfl _ _)
    all_goals nofun
  | .index _ target i => by
    rw [expr]
    refine ensures_bind (ensures_expr target) fun t => ?_
    refine ensures_bind (ensures_expr i) fun i => ensures_pure fun hi ht => ?_
    rw [Image.Expr.sites, sitesKnown_append]
    exact ⟨ht, hi⟩
  | .unary _ op operand => by
    rw [expr]
    refine ensures_bind (ensures_expr operand) fun e => ensures_pure fun he => ?_
    rwa [Image.Expr.sites]
  | .binary _ op lhs rhs => by
    rw [expr]
    refine ensures_bind (ensures_expr lhs) fun a => ?_
    refine ensures_bind (ensures_expr rhs) fun b => ensures_pure fun hb ha => ?_
    rw [Image.Expr.sites, sitesKnown_append]
    exact ⟨ha, hb⟩
  | .await _ operand => by
    rw [expr]
    refine ensures_bind (ensures_expr operand) fun e => ensures_pure fun he => ?_
    rwa [Image.Expr.sites]

theorem ensures_exprs :
    ∀ es : List Expr, Ensures c (exprs es) fun es' => SitesKnown c.table (Image.Expr.sitesAll es')
  | [] => by
    rw [exprs]
    exact ensures_pure sitesKnown_nil
  | e :: es => by
    rw [exprs]
    refine ensures_bind (ensures_expr e) fun e' => ?_
    refine ensures_bind (ensures_exprs es) fun es' => ensures_pure fun hes he => ?_
    rw [Image.Expr.sitesAll, sitesKnown_append]
    exact ⟨he, hes⟩

end

theorem ensures_expr? (e : Option Expr) :
    Ensures c (expr? e) fun e' => SitesKnown c.table (e'.toList.flatMap Image.Expr.sites) := by
  cases e with
  | none => exact ensures_pure sitesKnown_nil
  | some e =>
    refine ensures_bind (ensures_expr e) fun e' => ensures_pure fun he => ?_
    simpa using he

theorem ensures_place (target : Expr) :
    Ensures c (place target) fun p => ∃ q, p = some q ∧ SitesKnown c.table q.sites := by
  unfold place
  split
  -- A bare name: what it was resolved to decides, and a type is no place.
  · next span name =>
    refine ensures_bind (ensures_resolve name span) fun r => ?_
    rcases r with _ | r
    · exact ensures_pure fun ⟨_, h, _⟩ => nomatch h
    · cases r with
      | slot slot => exact ensures_pure fun _ => ⟨_, rfl, sitesKnown_nil⟩
      | staticField owner name =>
        refine ensures_pure fun ⟨_, h, hknown⟩ => ⟨_, rfl, ?_⟩
        cases h
        rw [Image.Place.sites, sitesKnown_cons]
        exact ⟨hknown, sitesKnown_nil⟩
      | instanceField name => exact ensures_pure fun _ => ⟨_, rfl, sitesKnown_nil⟩
      | type t => exact ensures_error_pure (ensures_error rfl _ _)
  -- A member: static ones are looked up now, those of objects when the code runs.
  · next span inner name =>
    refine ensures_bind (ensures_receiver (ensures_expr inner)) fun r => ?_
    cases r with
    | type t =>
      refine ensures_bind ensures_read fun c' => ?_
      split
      · next declaring f hmember =>
        split
        · next hstatic =>
          refine ensures_pure fun hc _ => ⟨_, rfl, ?_⟩
          subst hc
          rw [Image.Place.sites, sitesKnown_cons]
          exact ⟨known_field hmember hstatic, sitesKnown_nil⟩
        · exact ensures_error_pure (ensures_error rfl _ _)
      · exact ensures_error_pure (ensures_error rfl _ _)
      · exact ensures_error_pure (ensures_error rfl _ _)
    | value inner => exact ensures_pure fun hinner => ⟨_, rfl, hinner⟩
    | unresolved => exact ensures_pure False.elim
  · next span target i =>
    refine ensures_bind (ensures_expr target) fun t => ?_
    refine ensures_bind (ensures_expr i) fun i => ensures_pure fun hi ht => ⟨_, rfl, ?_⟩
    rw [Image.Place.sites, sitesKnown_append]
    exact ⟨ht, hi⟩
  · exact ensures_error_pure (ensures_error rfl _ _)

/-! ## Statements -/

theorem ensures_enter (r : Reach) (span : Span) : Ensures c (r.enter span) fun _ => True := by
  unfold Reach.enter
  split
  · exact ensures_bind (ensures_report _ _ _) fun _ => ensures_pure fun _ => trivial
  · exact ensures_pure trivial

theorem ensures_inLoop {body : Lowering α} {P : α → Prop} (h : Ensures c body P) :
    Ensures c (inLoop body) P := by
  refine ensures_bind (P := fun _ => True) (ensures_modify fun _ h => h) fun _ => ?_
  refine ensures_bind h fun a => ?_
  refine ensures_bind (P := fun _ => True) (ensures_modify fun _ h => h) fun _ => ?_
  exact ensures_pure fun _ ha _ => ha

theorem ensures_checkLoop (span : Span) (word : String) :
    Ensures c (checkLoop span word) fun _ => True := by
  refine ensures_bind ensures_get fun s => ?_
  split
  · exact (ensures_report _ _ _).imp fun _ _ _ => trivial
  · exact ensures_pure fun _ => trivial

/-- A place that was not resolved has been reported, so there is one where there is no error. -/
theorem ensures_assign (span : Span) (target value : Expr) :
    Ensures c (stmt (.assign span target value)) fun s => SitesKnown c.table s.sites := by
  rw [stmt]
  refine ensures_bind (ensures_lineOf span) fun line => ?_
  refine ensures_bind (ensures_place target) fun p => ?_
  refine ensures_bind (ensures_expr value) fun e => ?_
  cases p with
  | none => exact ensures_pure fun he _ _ => he
  | some p =>
    refine ensures_pure fun he hp _ => ?_
    obtain ⟨_, ⟨⟩, hp⟩ := hp
    rw [Image.Stmt.sites, sitesKnown_append]
    exact ⟨hp, he⟩

theorem ensures_tryCatch {body handler : Block} (span : Span) (binding : Option Ident)
    (hbody : Ensures c (block body) fun ss => SitesKnown c.table (Image.Stmt.sitesAll ss))
    (hhandler : Ensures c (block handler) fun ss => SitesKnown c.table (Image.Stmt.sitesAll ss)) :
    Ensures c (stmt (.tryCatch span body binding handler)) fun s => SitesKnown c.table s.sites := by
  rw [stmt]
  refine ensures_bind (ensures_lineOf span) fun line => ?_
  refine ensures_bind hbody fun b => ensures_inScope ?_
  -- the handler is lowered in the same way, whether the exception has a name or not
  have hrest (slot : Option Nat) : Ensures c (do
      let handler ← block handler
      return Image.Stmt.tryCatch line b slot handler) fun s =>
        SitesKnown c.table (Image.Stmt.sitesAll b) → SitesKnown c.table s.sites := by
    refine ensures_bind hhandler fun h => ensures_pure fun hh hb => ?_
    rw [Image.Stmt.sites, sitesKnown_append]
    exact ⟨hb, hh⟩
  cases binding with
  | none =>
    refine ensures_bind (P := fun _ => True) (ensures_pure trivial) fun slot => ?_
    exact (hrest slot).imp fun _ h _ hb _ => h hb
  | some name =>
    have hslot : Ensures c (some <$> declare name false) fun _ => True :=
      ensures_map (ensures_declare name false) fun _ _ => trivial
    exact ensures_bind hslot fun slot => (hrest slot).imp fun _ h _ hb _ => h hb

mutual

theorem ensures_stmt : ∀ s : Stmt, Ensures c (stmt s) fun s' => SitesKnown c.table s'.sites
  | .declare span name init => by
    rw [stmt]
    refine ensures_bind (ensures_lineOf span) fun line => ?_
    refine ensures_bind (ensures_expr? init) fun e => ?_
    exact ensures_bind (ensures_declare name true) fun _ => ensures_pure fun _ he _ => he
  | .assign span target value => ensures_assign span target value
  | .expr span e => by
    rw [stmt]
    refine ensures_bind (ensures_lineOf span) fun line => ?_
    exact ensures_bind (ensures_expr e) fun _ => ensures_pure fun he _ => he
  | .cond branch => by
    rw [stmt]
    exact ensures_conditional branch
  | .whileLoop span cond body => by
    rw [stmt]
    refine ensures_bind (ensures_lineOf span) fun line => ?_
    refine ensures_bind (ensures_expr cond) fun e => ?_
    refine ensures_bind (ensures_inLoop (ensures_block body)) fun b => ?_
    refine ensures_pure fun hb he _ => ?_
    rw [Image.Stmt.sites, sitesKnown_append]
    exact ⟨he, hb⟩
  | .forLoop span item iterable body => by
    rw [stmt]
    refine ensures_bind (ensures_lineOf span) fun line => ?_
    refine ensures_bind (ensures_expr iterable) fun e => ensures_inScope ?_
    refine ensures_bind (ensures_declare item false) fun slot => ?_
    refine ensures_bind (ensures_inLoop (ensures_block body)) fun b => ?_
    refine ensures_pure fun hb _ he _ => ?_
    rw [Image.Stmt.sites, sitesKnown_append]
    exact ⟨he, hb⟩
  | .ret span value => by
    rw [stmt]
    refine ensures_bind (ensures_lineOf span) fun line => ?_
    exact ensures_bind (ensures_expr? value) fun _ => ensures_pure fun he _ => he
  | .throw span value => by
    rw [stmt]
    refine ensures_bind (ensures_lineOf span) fun line => ?_
    exact ensures_bind (ensures_expr value) fun _ => ensures_pure fun he _ => he
  | .tryCatch span body binding handler =>
    ensures_tryCatch span binding (ensures_block body) (ensures_block handler)
  | .breakLoop span => by
    rw [stmt]
    refine ensures_bind (ensures_lineOf span) fun line => ?_
    exact ensures_bind (ensures_checkLoop span _) fun _ => ensures_pure fun _ _ => sitesKnown_nil
  | .continueLoop span => by
    rw [stmt]
    refine ensures_bind (ensures_lineOf span) fun line => ?_
    exact ensures_bind (ensures_checkLoop span _) fun _ => ensures_pure fun _ _ => sitesKnown_nil
  | .nested b => by
    rw [stmt]
    refine ensures_bind (ensures_lineOf _) fun line => ?_
    exact ensures_bind (ensures_block b) fun _ => ensures_pure fun hb _ => hb

theorem ensures_block :
    ∀ b : Block, Ensures c (block b) fun ss => SitesKnown c.table (Image.Stmt.sitesAll ss)
  | .mk _ ss => by
    rw [block]
    exact ensures_inScope (ensures_stmts .reachable ss)

theorem ensures_conditional :
    ∀ b : Conditional, Ensures c (conditional b) fun s => SitesKnown c.table s.sites
  | .mk span cond thenBlock otherwise => by
    rw [conditional]
    refine ensures_bind (ensures_lineOf span) fun line => ?_
    refine ensures_bind (ensures_expr cond) fun e => ?_
    refine ensures_bind (ensures_block thenBlock) fun b => ?_
    match otherwise with
    | .none =>
      refine ensures_pure fun hb he _ => ?_
      rw [Image.Stmt.sites, sitesKnown_append, sitesKnown_append]
      exact ⟨⟨he, hb⟩, sitesKnown_nil⟩
    | .block other =>
      refine ensures_bind (ensures_block other) fun b' => ensures_pure fun hb' hb he _ => ?_
      rw [Image.Stmt.sites, sitesKnown_append, sitesKnown_append]
      exact ⟨⟨he, hb⟩, hb'⟩
    | .chain next =>
      refine ensures_bind (ensures_conditional next) fun s => ensures_pure fun hs hb he _ => ?_
      rw [Image.Stmt.sites, sitesKnown_append, sitesKnown_append, Image.Stmt.sitesAll,
        sitesKnown_append]
      exact ⟨⟨he, hb⟩, hs, sitesKnown_nil⟩

theorem ensures_stmts : ∀ (r : Reach) (ss : List Stmt),
    Ensures c (stmts r ss) fun ss' => SitesKnown c.table (Image.Stmt.sitesAll ss')
  | _, [] => by
    rw [stmts]
    exact ensures_pure sitesKnown_nil
  | r, s :: ss => by
    rw [stmts]
    refine ensures_bind (ensures_enter r s.span) fun r' => ?_
    refine ensures_bind (ensures_stmt s) fun s' => ?_
    refine ensures_bind (ensures_stmts _ ss) fun ss' => ensures_pure fun hss hs _ => ?_
    rw [Image.Stmt.sitesAll, sitesKnown_append]
    exact ⟨hs, hss⟩

end

/-! ## Members -/

theorem ensures_param (p : Param) :
    Ensures c (param p) fun d => (⟨d.name, d.typeName, d.default.isSome⟩ : ParamSymbol) =
      ⟨p.name.name, p.typeName.map (·.name), p.default.isSome⟩ :=
  ensures_bind (ensures_declare p.name false) fun _ => ensures_pure fun _ => rfl

theorem ensures_body? (b : Option Block) :
    Ensures c (body? b) fun ss => ss.isSome = b.isSome ∧
      SitesKnown c.table (ss.toList.flatMap Image.Stmt.sitesAll) := by
  cases b with
  | none => exact ensures_pure ⟨rfl, sitesKnown_nil⟩
  | some b =>
    refine ensures_bind (ensures_block b) fun ss => ensures_pure fun hss => ⟨rfl, ?_⟩
    simpa using hss

/-- A method keeps its signature, and its table knows all that its body relies on. -/
theorem ensures_method (m : MethodDecl) :
    Ensures c (method m) fun d =>
      MethodSymbol.ofDef d = Declaration.methodSymbol m ∧ SitesKnown c.table d.sites := by
  have hmember : Ensures c (inScope do
      let params ← m.params.mapM param
      return (params, ← body? m.body)) fun r =>
        r.1.map (fun p => (⟨p.name, p.typeName, p.default.isSome⟩ : ParamSymbol)) =
            m.params.map (fun p => ⟨p.name.name, p.typeName.map (·.name), p.default.isSome⟩) ∧
          r.2.isSome = m.body.isSome ∧
            SitesKnown c.table (r.2.toList.flatMap Image.Stmt.sitesAll) := by
    refine ensures_inScope (ensures_bind (ensures_mapM ensures_param m.params) fun ps => ?_)
    refine ensures_bind (ensures_body? m.body) fun b => ensures_pure fun hb hps => ⟨?_, hb⟩
    exact (map_eq_of_forall₂ (fun _ _ h => h.symm) hps).symm
  refine ensures_bind hmember fun r => ?_
  refine ensures_bind ensures_get fun s => ?_
  refine ensures_bind (ensures_lineOf _) fun line => ensures_pure fun _ _ hr => ?_
  obtain ⟨hparams, hbody, hlinks⟩ := hr
  refine ⟨?_, hlinks⟩
  simp only [MethodSymbol.ofDef, hparams, hbody, Declaration.methodSymbol]

theorem ensures_field (f : FieldDecl) :
    Ensures c (field f) fun d => (⟨d.name, d.isStatic⟩ : FieldSymbol) = ⟨f.name.name, f.isStatic⟩ ∧
      SitesKnown c.table d.sites := by
  refine ensures_bind (ensures_inScope (ensures_expr? f.init)) fun e => ?_
  exact ensures_bind (ensures_lineOf _) fun line => ensures_pure fun _ he => ⟨rfl, he⟩

end Lowering

end GenLang
