import PixelLowering.Proofs.Reading.Lowered

/-! Which source expressions are lowered to the same tree.

    Lowering forgets positions, most static types and a few differences of spelling, and nothing
    else. `Alike` has one rule for each thing that is forgotten, and one for each kind of node that
    says its parts may be exchanged for parts that are alike:

        TRUE  ~  true          Z  ~  255          (e)  ~  e          (b[x, y]):red  ~  b[x, y]:red
        1 + image  ~  image + 1                   1 == "a"  ~  "a" == 1

    Two expressions with the same tree are alike. The tree says by which rule each of them was
    lowered, up to wrappers; the parts have the same trees again. -/

namespace PixelLowering.Target

/-- The trees that a tree is put together from. -/
def Expr.parts : Expr → List Expr
  | .literal _ | .bool _ | .var _ => []
  | .unary _ part | .measure _ part => [part]
  | .infixed _ first second | .equals first second | .power first second => [first, second]
  | .cond test yes no => [test, yes, no]
  | .call _ _ arguments => arguments

theorem sizeOf_lt_of_mem_parts {t part : Expr} (h : part ∈ t.parts) : sizeOf part < sizeOf t := by
  cases t with
  | literal | bool | var => simp [Expr.parts] at h
  | unary op operand =>
    obtain rfl : part = operand := by simpa [Expr.parts] using h
    simp only [Expr.unary.sizeOf_spec]
    omega
  | measure axis image =>
    obtain rfl : part = image := by simpa [Expr.parts] using h
    simp only [Expr.measure.sizeOf_spec]
    omega
  | infixed op first second =>
    obtain rfl | rfl : part = first ∨ part = second := by simpa [Expr.parts] using h
    all_goals simp only [Expr.infixed.sizeOf_spec]; omega
  | equals first second =>
    obtain rfl | rfl : part = first ∨ part = second := by simpa [Expr.parts] using h
    all_goals simp only [Expr.equals.sizeOf_spec]; omega
  | power first second =>
    obtain rfl | rfl : part = first ∨ part = second := by simpa [Expr.parts] using h
    all_goals simp only [Expr.power.sizeOf_spec]; omega
  | cond test yes no =>
    obtain rfl | rfl | rfl : part = test ∨ part = yes ∨ part = no := by
      simpa [Expr.parts] using h
    all_goals simp only [Expr.cond.sizeOf_spec]; omega
  | call routine tag? arguments =>
    have hlt : sizeOf part < sizeOf arguments := List.sizeOf_lt_of_mem h
    simp only [Expr.call.sizeOf_spec]
    omega

end PixelLowering.Target

namespace PixelLowering.Lower

open PixelLowering.Diagnostic
open PixelLowering.Library
open PixelLowering.Source

/-- Expressions that differ only in what lowering does not look at. -/
inductive Alike : Expr → Expr → Prop
  | refl (e : Expr) : Alike e e
  | symm {e e' : Expr} (h : Alike e e') : Alike e' e
  | trans {e e' e'' : Expr} (h : Alike e e') (h' : Alike e' e'') : Alike e e''
  /- Leaves: positions and types do not matter, nor does the spelling of a boolean or the name of a
     constant. -/
  | num (i i' : Info) (text : String) : Alike (.num i text) (.num i' text)
  | str (i i' : Info) (text : String) : Alike (.str i text) (.str i' text)
  | ident (i i' : Info) (name : String) : Alike (.ident i name) (.ident i' name)
  | bool {i i' : Info} {text text' : String}
      (h : (Expr.bool i text).isTrue = (Expr.bool i' text').isTrue) :
      Alike (.bool i text) (.bool i' text')
  | const {i i' : Info} {name literal : String} (h : constantLiteral? name = some literal) :
      Alike (.const i name) (.num i' literal)
  /- Whole nodes that are written in two ways. -/
  | wrapped (i : Info) (base : Expr) : Alike (.part i base none) base
  | selected (i i' i'' : Info) (base x y : Expr) (p p' : Position) (channel : Channel) :
      Alike (.part i (.pixelAt i' base x y p none) (some channel))
        (.pixelAt i'' base x y p' (some channel))
  | changed {i i' : Info} {op : Operator} {left right : Expr}
      (h : ChangesPlaces op left.ty right.ty) :
      Alike (.binary i op left right) (.binary i' op right left)
  /- Parts: their types may differ where the operator is lowered in the same way. -/
  | cond {i i' : Info} {guard guard' yes yes' no no' : Expr} (hguard : Alike guard guard')
      (hyes : Alike yes yes') (hno : Alike no no') :
      Alike (.cond i guard yes no) (.cond i' guard' yes' no')
  | unary {i i' : Info} {op : Operator} {operand operand' : Expr}
      (hsame : lowerUnary? op operand.ty = lowerUnary? op operand'.ty)
      (h : Alike operand operand') : Alike (.unary i op operand) (.unary i' op operand')
  | binary {i i' : Info} {op : Operator} {left left' right right' : Expr}
      (hsame : lowerBinary? op left.ty right.ty = lowerBinary? op left'.ty right'.ty)
      (hleft : Alike left left') (hright : Alike right right') :
      Alike (.binary i op left right) (.binary i' op left' right')
  | channel {i i' : Info} {base base' : Expr} {channel : Channel} (hsame : base.ty = base'.ty)
      (h : Alike base base') : Alike (.part i base (some channel)) (.part i' base' (some channel))
  | pixelAt {i i' : Info} {base base' x x' y y' : Expr} {p p' : Position}
      {channel? : Option Channel} (hbase : Alike base base') (hx : Alike x x') (hy : Alike y y') :
      Alike (.pixelAt i base x y p channel?) (.pixelAt i' base' x' y' p' channel?)
  | pixel {i i' : Info} {red red' green green' blue blue' : Expr} (hred : Alike red red')
      (hgreen : Alike green green') (hblue : Alike blue blue') :
      Alike (.pixel i red green blue) (.pixel i' red' green' blue')

/-! ### The last rule of a lowering -/

/-- An expression that is spelled as it should be is lowered to a tree. -/
structure Lowers (env : Env) (e : Expr) (t : Target.Expr) : Prop where
  spelled : e.wellSpelled
  lowered : lowerExpr env e = .ok t

/-- How a binary expression comes to be two operands and what joins them. -/
inductive Operands (env : Env) (joint : Joint) (op : Operator) (left right : Expr)
    (first second : Target.Expr) : Prop
  | inOrder (hop : joint.operator = op)
      (h : ∀ a b, lowerBinary? op left.ty right.ty a b = some (joint.apply a b))
      (hfirst : Lowers env left first) (hsecond : Lowers env right second)
  | changed (hop : joint.operator = op) (hplaces : ChangesPlaces op left.ty right.ty)
      (h : ∀ a b, lowerBinary? op left.ty right.ty a b = some (joint.apply b a))
      (hfirst : Lowers env right first) (hsecond : Lowers env left second)

/-- The rules by which an expression that is not a mere wrapper is lowered. The channel of a pixel
    of an image is read in two steps. -/
inductive Rule (env : Env) : Expr → Target.Expr → Prop
  | num {i : Info} {text : String} (h : Target.isNumeral text.toList) :
      Rule env (.num i text) (.literal text)
  | str {i : Info} {text : String} (h : Text.isStringLiteral text.toList) :
      Rule env (.str i text) (.literal text)
  | const {i : Info} {name literal : String} (h : constantLiteral? name = some literal) :
      Rule env (.const i name) (.literal literal)
  | bool {i : Info} {text : String} {value : Bool} (h : (Expr.bool i text).isTrue = value) :
      Rule env (.bool i text) (.bool value)
  | ident {i : Info} {name emitted : String} (h : env name = some emitted) :
      Rule env (.ident i name) (.var emitted)
  | cond {i : Info} {guard yes no : Expr} {a b c : Target.Expr} (ha : Lowers env guard a)
      (hb : Lowers env yes b) (hc : Lowers env no c) :
      Rule env (.cond i guard yes no) (.cond a b c)
  | unary {i : Info} {op : Operator} {operand : Expr} {target : Target.UnaryOp} {a : Target.Expr}
      (ha : Lowers env operand a) (h : lowerUnary? op operand.ty a = some (.unary target a)) :
      Rule env (.unary i op operand) (.unary target a)
  | measure {i : Info} {op : Operator} {operand : Expr} {axis : Target.Axis} {a : Target.Expr}
      (ha : Lowers env operand a) (h : lowerUnary? op operand.ty a = some (.measure axis a)) :
      Rule env (.unary i op operand) (.measure axis a)
  | infixed {i : Info} {op : Operator} {left right : Expr} {target : Target.InfixOp}
      {a b : Target.Expr} (h : Operands env (.infixed target) op left right a b) :
      Rule env (.binary i op left right) (.infixed target a b)
  | equals {i : Info} {op : Operator} {left right : Expr} {a b : Target.Expr}
      (h : Operands env .equals op left right a b) :
      Rule env (.binary i op left right) (.equals a b)
  | power {i : Info} {op : Operator} {left right : Expr} {a b : Target.Expr}
      (h : Operands env .power op left right a b) :
      Rule env (.binary i op left right) (.power a b)
  | call {i : Info} {op : Operator} {left right : Expr} {routine : Routine} {tag? : Option Tag}
      {a b : Target.Expr} (h : Operands env (.call routine tag?) op left right a b) :
      Rule env (.binary i op left right) (.call routine tag? [a, b])
  | extract {i : Info} {base : Expr} {channel : Channel} {a : Target.Expr}
      (hty : base.ty = .image) (ha : Lowers env base a) :
      Rule env (.part i base (some channel)) (.call (.extractChannel channel) none [a])
  | channel {i : Info} {base : Expr} {channel : Channel} {a : Target.Expr}
      (hty : base.ty = .pixel) (ha : Lowers env base a) :
      Rule env (.part i base (some channel)) (.call (.getChannel channel) none [a])
  | pixelAt {i : Info} {base x y : Expr} {p : Position} {a b c : Target.Expr}
      (ha : Lowers env base a) (hb : Lowers env x b) (hc : Lowers env y c) :
      Rule env (.pixelAt i base x y p none) (.call .getRGB none [a, b, c])
  | pixel {i : Info} {red green blue : Expr} {a b c : Target.Expr} (ha : Lowers env red a)
      (hb : Lowers env green b) (hc : Lowers env blue c) :
      Rule env (.pixel i red green blue) (.call .pack none [a, b, c])

theorem bind_eq_ok {α β : Type} {result : Except Failure α} {next : α → Except Failure β} {b : β}
    (h : (result >>= next) = .ok b) : ∃ a, result = .ok a ∧ next a = .ok b := by
  cases result with
  | error reason => cases h
  | ok a => exact ⟨a, rfl, h⟩

section

variable {env : Env} {t : Target.Expr}

theorem Rule.of_unary {i : Info} {op : Operator} {operand : Expr} {a : Target.Expr}
    (ha : Lowers env operand a) (h : lowerUnary? op operand.ty a = some t) :
    Rule env (.unary i op operand) t := by
  have h' := h
  unfold lowerUnary? at h'
  split at h' <;> cases h'
  · exact .unary ha h
  · exact .unary ha h
  · exact .unary ha h
  · exact .measure ha h
  · exact .measure ha h

theorem Rule.of_operands {i : Info} {op : Operator} {left right : Expr} {joint : Joint}
    {a b : Target.Expr} (h : Operands env joint op left right a b) :
    Rule env (.binary i op left right) (joint.apply a b) := by
  cases joint with
  | infixed target => exact .infixed h
  | equals => exact .equals h
  | power => exact .power h
  | call routine tag? => exact .call h

theorem Rule.of_binary {i : Info} {op : Operator} {left right : Expr} {a b : Target.Expr}
    (ha : Lowers env left a) (hb : Lowers env right b)
    (h : lowerBinary? op left.ty right.ty a b = some t) : Rule env (.binary i op left right) t := by
  cases lowerBinary?_joined op left.ty right.ty with
  | unsupported hjoint => cases (hjoint a b).symm.trans h
  | inOrder joint hop hjoint =>
    rw [← Option.some.inj ((hjoint a b).symm.trans h)]
    exact .of_operands (.inOrder hop hjoint ha hb)
  | changed joint hop hplaces hjoint =>
    rw [← Option.some.inj ((hjoint a b).symm.trans h)]
    exact .of_operands (.changed hop hplaces hjoint hb ha)

theorem Rule.of_pixelOf {i : Info} {base x y : Expr} {p : Position}
    (h : (Expr.pixelAt i base x y p none).wellSpelled)
    (ht : pixelOf base p (lowerExpr env base) (lowerExpr env x) (lowerExpr env y) = .ok t) :
    Rule env (.pixelAt i base x y p none) t := by
  simp only [Expr.wellSpelled, Bool.and_eq_true] at h
  rw [pixelOf] at ht
  split at ht
  · obtain ⟨a, ha, ht⟩ := bind_eq_ok ht
    obtain ⟨b, hb, ht⟩ := bind_eq_ok ht
    obtain ⟨c, hc, ht⟩ := bind_eq_ok ht
    cases ht
    exact .pixelAt ⟨h.1.1, ha⟩ ⟨h.1.2, hb⟩ ⟨h.2, hc⟩
  · cases ht
  · cases ht

/-- Up to wrappers, a tree comes from a rule. -/
theorem Lowers.exists_rule {e : Expr} (h : Lowers env e t) : ∃ e', Alike e e' ∧ Rule env e' t := by
  obtain ⟨hspelled, ht⟩ := h
  induction e with
  | num info text =>
    cases ht
    exact ⟨_, .refl _, .num (isNumeral_of_isDecimal hspelled)⟩
  | str info text =>
    cases ht
    exact ⟨_, .refl _, .str hspelled⟩
  | bool info text =>
    cases ht
    exact ⟨_, .refl _, .bool rfl⟩
  | ident info name =>
    rw [lowerExpr, resolveName] at ht
    cases hname : env name with
    | none =>
      rw [hname] at ht
      cases ht
    | some emitted =>
      rw [hname] at ht
      cases ht
      exact ⟨_, .refl _, .ident hname⟩
  | const info name =>
    rw [lowerExpr] at ht
    cases hliteral : constantLiteral? name with
    | none =>
      rw [hliteral] at ht
      cases ht
    | some literal =>
      rw [hliteral] at ht
      cases ht
      exact ⟨_, .refl _, .const hliteral⟩
  | cond info guard yes no _ _ _ =>
    simp only [Expr.wellSpelled, Bool.and_eq_true] at hspelled
    rw [lowerExpr] at ht
    obtain ⟨a, ha, ht⟩ := bind_eq_ok ht
    obtain ⟨b, hb, ht⟩ := bind_eq_ok ht
    obtain ⟨c, hc, ht⟩ := bind_eq_ok ht
    cases ht
    exact ⟨_, .refl _, .cond ⟨hspelled.1.1, ha⟩ ⟨hspelled.1.2, hb⟩ ⟨hspelled.2, hc⟩⟩
  | unary info op operand _ =>
    rw [lowerExpr] at ht
    obtain ⟨a, ha, ht⟩ := bind_eq_ok ht
    split at ht
    · next lowered hlowered =>
      cases ht
      exact ⟨_, .refl _, .of_unary ⟨hspelled, ha⟩ hlowered⟩
    · cases ht
  | binary info op left right _ _ =>
    simp only [Expr.wellSpelled, Bool.and_eq_true] at hspelled
    rw [lowerExpr] at ht
    obtain ⟨a, ha, ht⟩ := bind_eq_ok ht
    obtain ⟨b, hb, ht⟩ := bind_eq_ok ht
    split at ht
    · next lowered hlowered =>
      cases ht
      exact ⟨_, .refl _, .of_binary ⟨hspelled.1, ha⟩ ⟨hspelled.2, hb⟩ hlowered⟩
    · cases ht
  | part info base channel? ih =>
    cases channel? with
    | none =>
      rw [lowerExpr] at ht
      split at ht
      · obtain ⟨e', halike, hrule⟩ := ih hspelled ht
        exact ⟨e', (Alike.wrapped info base).trans halike, hrule⟩
      · cases ht
    | some channel =>
      rw [lowerExpr] at ht
      split at ht
      · next himage =>
        obtain ⟨a, ha, ht⟩ := bind_eq_ok ht
        cases ht
        exact ⟨_, .refl _, .extract himage ⟨hspelled, ha⟩⟩
      · obtain ⟨a, ha, ht⟩ := bind_eq_ok ht
        cases ht
        rw [wholePixel] at ha
        split at ha
        · next hpixel => exact ⟨_, .refl _, .channel hpixel ⟨hspelled, ha⟩⟩
        · cases ha
        · cases ha
  | pixelAt info base x y coordinates channel? _ _ _ =>
    cases channel? with
    | none => exact ⟨_, .refl _, .of_pixelOf hspelled ht⟩
    | some channel =>
      rw [lowerExpr] at ht
      obtain ⟨a, ha, ht⟩ := bind_eq_ok ht
      cases ht
      -- the pixel itself is lowered to `a`
      have hpixel : Lowers env (.pixelAt ⟨.pixel, info.pos⟩ base x y coordinates none) a :=
        ⟨hspelled, ha⟩
      exact ⟨_, (Alike.selected info _ info base x y _ _ channel).symm, .channel rfl hpixel⟩
  | pixel info red green blue _ _ _ =>
    simp only [Expr.wellSpelled, Bool.and_eq_true] at hspelled
    rw [lowerExpr] at ht
    obtain ⟨a, ha, ht⟩ := bind_eq_ok ht
    obtain ⟨b, hb, ht⟩ := bind_eq_ok ht
    obtain ⟨c, hc, ht⟩ := bind_eq_ok ht
    cases ht
    exact ⟨_, .refl _, .pixel ⟨hspelled.1.1, ha⟩ ⟨hspelled.1.2, hb⟩ ⟨hspelled.2, hc⟩⟩

/-! ### The same rule for the same tree -/

/-- The operator in front of an operand shows, and so does its type. -/
theorem lowerUnary?_inj {op op' : Operator} {ty ty' : Ty} {a : Target.Expr}
    (h : lowerUnary? op ty a = some t) (h' : lowerUnary? op' ty' a = some t) :
    op = op' ∧ ty = ty' := by
  unfold lowerUnary? at h h'
  split at h <;> cases h <;> split at h' <;> cases h' <;> exact ⟨rfl, rfl⟩

/-- Operands that change places are joined as if they stood the other way around. -/
theorem ChangesPlaces.lowerBinary?_eq {op : Operator} {leftTy rightTy : Ty}
    (h : ChangesPlaces op leftTy rightTy) (a b : Target.Expr) :
    lowerBinary? op leftTy rightTy a b = lowerBinary? op rightTy leftTy b a := by
  rcases h with ⟨hop, hty⟩ | ⟨rfl, hty, rfl⟩
  · simp only [List.mem_cons, List.not_mem_nil, or_false, Prod.mk.injEq] at hop hty
    rcases hop with rfl | rfl <;> rcases hty with ⟨rfl, rfl⟩ | ⟨rfl, rfl⟩ | ⟨rfl, rfl⟩ <;> rfl
  · cases leftTy <;> first | rfl | simp at hty

section

variable {joint : Joint} {op op' : Operator} {left right left' right' : Expr} {a b : Target.Expr}

/-- One pair of operands is in order, the other one changed around. -/
theorem Alike.of_changed {i i' : Info} (hplaces : ChangesPlaces op left'.ty right'.ty)
    (h : ∀ a b, lowerBinary? op left.ty right.ty a b = some (joint.apply a b))
    (h' : ∀ a b, lowerBinary? op left'.ty right'.ty a b = some (joint.apply b a))
    (hfirst : Alike left right') (hsecond : Alike right left') :
    Alike (.binary i op left right) (.binary i' op left' right') := by
  have hsame : lowerBinary? op left.ty right.ty = lowerBinary? op right'.ty left'.ty := by
    funext a b
    rw [h, ← hplaces.lowerBinary?_eq, h']
  have hback : Alike (.binary i' op right' left') (.binary i' op left' right') :=
    (Alike.changed hplaces).symm
  exact (Alike.binary hsame hfirst hsecond).trans hback

/-- Binary expressions with the same joint and the same operands are alike, if their parts are. -/
theorem Operands.alike {i i' : Info} (h : Operands env joint op left right a b)
    (h' : Operands env joint op' left' right' a b)
    (hfirst : ∀ {e e' : Expr}, Lowers env e a → Lowers env e' a → Alike e e')
    (hsecond : ∀ {e e' : Expr}, Lowers env e b → Lowers env e' b → Alike e e') :
    Alike (.binary i op left right) (.binary i' op' left' right') := by
  cases h with
  | inOrder hop hjoint ha hb =>
    cases h' with
    | inOrder hop' hjoint' ha' hb' =>
      obtain rfl : op = op' := hop.symm.trans hop'
      refine .binary ?_ (hfirst ha ha') (hsecond hb hb')
      funext c d
      rw [hjoint, hjoint']
    | changed hop' hplaces' hjoint' ha' hb' =>
      obtain rfl : op = op' := hop.symm.trans hop'
      exact .of_changed hplaces' hjoint hjoint' (hfirst ha ha') (hsecond hb hb')
  | changed hop hplaces hjoint ha hb =>
    cases h' with
    | inOrder hop' hjoint' ha' hb' =>
      obtain rfl : op = op' := hop.symm.trans hop'
      exact (Alike.of_changed hplaces hjoint' hjoint (hfirst ha' ha) (hsecond hb' hb)).symm
    | changed hop' hplaces' hjoint' ha' hb' =>
      obtain rfl : op = op' := hop.symm.trans hop'
      refine .binary ?_ (hsecond hb hb') (hfirst ha ha')
      funext c d
      rw [hjoint, hjoint']

end

theorem isStringLiteral_false_of_isNumeral {text : List Char} (h : Target.isNumeral text) :
    ¬Text.isStringLiteral text := by
  intro hstring
  obtain ⟨body, rfl, -⟩ := Text.isStringLiteral_iff.1 hstring
  simp [Target.isNumeral] at h

/-- Expressions with the same tree are alike, if no two names in scope are emitted as one. -/
theorem Lowers.alike
    (henv : ∀ {x y emitted : String}, env x = some emitted → env y = some emitted → x = y)
    {e e' : Expr} (h : Lowers env e t) (h' : Lowers env e' t) : Alike e e' := by
  -- by induction on the tree: the parts of both expressions have its parts for trees
  induction hsize : sizeOf t using Nat.strongRecOn generalizing t e e' with
  | ind size ih =>
  subst hsize
  have hpart : ∀ {a : Target.Expr}, a ∈ t.parts →
      ∀ {e e' : Expr}, Lowers env e a → Lowers env e' a → Alike e e' :=
    fun hmem => fun ha ha' => ih _ (Target.sizeOf_lt_of_mem_parts hmem) ha ha' rfl
  obtain ⟨f, hf, hrule⟩ := h.exists_rule
  obtain ⟨f', hf', hrule'⟩ := h'.exists_rule
  refine hf.trans (Alike.trans ?_ hf'.symm)
  clear h h' hf hf' ih
  cases hrule with
  | num hnum =>
    cases hrule' with
    | num => exact .num _ _ _
    | str hstr => exact absurd hstr (isStringLiteral_false_of_isNumeral hnum)
    | const hconst => exact (Alike.const hconst).symm
  | str hstr =>
    cases hrule' with
    | num hnum => exact absurd hstr (isStringLiteral_false_of_isNumeral hnum)
    | str => exact .str _ _ _
    | const hconst =>
      exact absurd hstr (isStringLiteral_false_of_isNumeral (isNumeral_of_constantLiteral? hconst))
  | const hconst =>
    cases hrule' with
    | num => exact .const hconst
    | str hstr =>
      exact absurd hstr (isStringLiteral_false_of_isNumeral (isNumeral_of_constantLiteral? hconst))
    | const hconst' =>
      exact (Alike.const hconst).trans (@Alike.const _ ⟨.int, .unknown⟩ _ _ hconst').symm
  | bool hvalue =>
    cases hrule' with
    | bool hvalue' => exact .bool (hvalue.trans hvalue'.symm)
  | ident hname =>
    cases hrule' with
    | ident hname' =>
      rw [henv hname hname']
      exact .ident _ _ _
  | cond ha hb hc =>
    cases hrule' with
    | cond ha' hb' hc' =>
      exact .cond (hpart (by simp [Target.Expr.parts]) ha ha')
        (hpart (by simp [Target.Expr.parts]) hb hb') (hpart (by simp [Target.Expr.parts]) hc hc')
  | unary ha hlowered =>
    cases hrule' with
    | unary ha' hlowered' =>
      obtain ⟨rfl, hty⟩ := lowerUnary?_inj hlowered hlowered'
      exact .unary (by rw [hty]) (hpart (by simp [Target.Expr.parts]) ha ha')
  | measure ha hlowered =>
    cases hrule' with
    | measure ha' hlowered' =>
      obtain ⟨rfl, hty⟩ := lowerUnary?_inj hlowered hlowered'
      exact .unary (by rw [hty]) (hpart (by simp [Target.Expr.parts]) ha ha')
  | infixed hoperands =>
    cases hrule' with
    | infixed hoperands' =>
      exact hoperands.alike hoperands' (hpart (by simp [Target.Expr.parts]))
        (hpart (by simp [Target.Expr.parts]))
  | equals hoperands =>
    cases hrule' with
    | equals hoperands' =>
      exact hoperands.alike hoperands' (hpart (by simp [Target.Expr.parts]))
        (hpart (by simp [Target.Expr.parts]))
  | power hoperands =>
    cases hrule' with
    | power hoperands' =>
      exact hoperands.alike hoperands' (hpart (by simp [Target.Expr.parts]))
        (hpart (by simp [Target.Expr.parts]))
  | call hoperands =>
    cases hrule' with
    | call hoperands' =>
      exact hoperands.alike hoperands' (hpart (by simp [Target.Expr.parts]))
        (hpart (by simp [Target.Expr.parts]))
  | extract hty ha =>
    cases hrule' with
    | extract hty' ha' =>
      exact .channel (hty.trans hty'.symm) (hpart (by simp [Target.Expr.parts]) ha ha')
  | channel hty ha =>
    cases hrule' with
    | channel hty' ha' =>
      exact .channel (hty.trans hty'.symm) (hpart (by simp [Target.Expr.parts]) ha ha')
  | pixelAt ha hb hc =>
    cases hrule' with
    | pixelAt ha' hb' hc' =>
      exact .pixelAt (hpart (by simp [Target.Expr.parts]) ha ha')
        (hpart (by simp [Target.Expr.parts]) hb hb') (hpart (by simp [Target.Expr.parts]) hc hc')
  | pixel ha hb hc =>
    cases hrule' with
    | pixel ha' hb' hc' =>
      exact .pixel (hpart (by simp [Target.Expr.parts]) ha ha')
        (hpart (by simp [Target.Expr.parts]) hb hb') (hpart (by simp [Target.Expr.parts]) hc hc')

end

end PixelLowering.Lower
