import BindingEngine.Proofs.Expr.RoundTrip

namespace BindingEngine.Expr

mutual

def height : Expr → Nat
  | literal _            => 1
  | read _ steps         => stepHeight steps + 1
  | unary _ operand      => operand.height + 1
  | binary _ left right  => max left.height right.height + 1
  | conditional condition whenTrue whenFalse =>
    max condition.height (max whenTrue.height whenFalse.height) + 1

def stepHeight : List Accessor → Nat
  | []                  => 0
  | .static _ :: rest   => stepHeight rest
  | .computed e :: rest => max e.height (stepHeight rest)

end

theorem height_pos (e : Expr) : 0 < e.height := by
  cases e <;> exact Nat.succ_pos _

-- A way from an expression to a leaf, with the steps on it that the limit counts and those that are
-- free.
inductive Way : Expr → Nat → Nat → Prop
  | literal (v : Value) : Way (literal v) 0 0
  | read (context : String) (steps : List Accessor) : Way (read context steps) 0 0
  | computed {context : String} {steps : List Accessor} {e : Expr} {counted free : Nat} :
    .computed e ∈ steps → Way e counted free → Way (.read context steps) (counted + 1) free
  | operand {op : UnaryOp} {e : Expr} {counted free : Nat} :
    Way e counted free → Way (unary op e) (counted + 1) free
  | left {op : BinaryOp} {left right : Expr} {counted free : Nat} :
    Way left counted free → Way (binary op left right) counted (free + 1)
  | right {op : BinaryOp} {left right : Expr} {counted free : Nat} :
    Way right counted free → Way (binary op left right) (counted + 1) free
  | condition {condition whenTrue whenFalse : Expr} {counted free : Nat} :
    Way condition counted free → Way (conditional condition whenTrue whenFalse) counted (free + 1)
  | whenTrue {condition whenTrue whenFalse : Expr} {counted free : Nat} :
    Way whenTrue counted free → Way (conditional condition whenTrue whenFalse) (counted + 1) free
  | whenFalse {condition whenTrue whenFalse : Expr} {counted free : Nat} :
    Way whenFalse counted free → Way (conditional condition whenTrue whenFalse) (counted + 1) free

section Way

variable {e : Expr} {steps : List Accessor} {c f : Nat}

theorem height_le_of_mem (h : .computed e ∈ steps) : e.height ≤ stepHeight steps := by
  induction h
  case head => exact Nat.le_max_left _ _
  case tail step _ _ ih =>
    cases step
    case static   => exact ih
    case computed => exact Nat.le_trans ih (Nat.le_max_right _ _)

theorem Way.lt_height (h : Way e c f) : c + f < e.height := by
  induction h
  case computed hm _ ih =>
    have hs := height_le_of_mem hm
    simp only [height]
    omega
  all_goals
    simp only [height]
    omega

mutual

theorem exists_longest_way (e : Expr) : ∃ c f, Way e c f ∧ e.height = c + f + 1 := by
  match e with
  | .literal v => exact ⟨0, 0, .literal v, rfl⟩
  | .read context steps =>
    rw [height]
    rcases exists_longest_step_way steps with hs | ⟨e, hm, c, f, hw, hs⟩
    case inl => exact ⟨0, 0, .read context steps, by omega⟩
    case inr => exact ⟨c + 1, f, .computed hm hw, by omega⟩
  | .unary op operand =>
    obtain ⟨c, f, hw, hh⟩ := exists_longest_way operand
    rw [height]
    exact ⟨c + 1, f, .operand hw, by omega⟩
  | .binary op left right =>
    obtain ⟨c, f, hw, hh⟩ := exists_longest_way left
    obtain ⟨c', f', hw', hh'⟩ := exists_longest_way right
    rw [height]
    rcases Nat.le_total right.height left.height with hl | hr
    case inl => exact ⟨c, f + 1, .left hw, by omega⟩
    case inr => exact ⟨c' + 1, f', .right hw', by omega⟩
  | .conditional condition whenTrue whenFalse =>
    obtain ⟨c, f, hw, hh⟩ := exists_longest_way condition
    obtain ⟨c', f', hw', hh'⟩ := exists_longest_way whenTrue
    obtain ⟨c'', f'', hw'', hh''⟩ := exists_longest_way whenFalse
    rw [height]
    rcases Nat.le_total (max whenTrue.height whenFalse.height) condition.height with hc | hb
    case inl => exact ⟨c, f + 1, .condition hw, by omega⟩
    case inr =>
      rcases Nat.le_total whenFalse.height whenTrue.height with ht | hf
      case inl => exact ⟨c' + 1, f', .whenTrue hw', by omega⟩
      case inr => exact ⟨c'' + 1, f'', .whenFalse hw'', by omega⟩

theorem exists_longest_step_way (steps : List Accessor) : stepHeight steps = 0 ∨
    ∃ e, .computed e ∈ steps ∧ ∃ c f, Way e c f ∧ stepHeight steps = c + f + 1 := by
  match steps with
  | [] => exact .inl rfl
  | .static s :: rest =>
    refine (exists_longest_step_way rest).imp id ?_
    rintro ⟨e, hm, hw⟩
    exact ⟨e, .tail _ hm, hw⟩
  | .computed e :: rest =>
    obtain ⟨c, f, hw, hh⟩ := exists_longest_way e
    rw [stepHeight]
    rcases Nat.le_total (stepHeight rest) e.height with he | hr
    case inl => exact .inr ⟨e, .head _, c, f, hw, by omega⟩
    case inr =>
      rw [Nat.max_eq_right hr]
      refine (exists_longest_step_way rest).imp id ?_
      rintro ⟨e, hm, hw⟩
      exact ⟨e, .tail _ hm, hw⟩

end

theorem height_le_iff {n : Nat} : e.height ≤ n ↔ ∀ c f, Way e c f → c + f < n := by
  refine ⟨fun h c f hw => Nat.lt_of_lt_of_le hw.lt_height h, fun h => ?_⟩
  obtain ⟨c, f, hw, hh⟩ := exists_longest_way e
  exact hh ▸ h c f hw

end Way

-- Every way has fewer than `c` steps that the limit counts, and fewer than `n` in all.
def Fits (n c : Nat) (e : Expr) : Prop :=
  ∀ counted free, Way e counted free → counted < c ∧ counted + free < n

namespace Fits

variable {m n c d room : Nat} {e left right : Expr}

theorem mono (h : Fits m c e) (hm : m ≤ n) (hc : c ≤ d) : Fits n d e := by
  intro k f hw
  obtain ⟨hk, hf⟩ := h k f hw
  omega

theorem literal (v : Value) (n c : Nat) : Fits (n + 1) (c + 1) (.literal v) := by
  rintro _ _ ⟨⟩
  omega

theorem read {steps : List Accessor} (context : String)
    (h : ∀ e, .computed e ∈ steps → Fits n c e) : Fits (n + 1) (c + 1) (.read context steps) := by
  intro k f hw
  cases hw
  case read => omega
  case computed e k hm hw =>
    obtain ⟨hk, hf⟩ := h e hm k f hw
    omega

theorem unary (op : UnaryOp) (h : Fits n c e) : Fits (n + 1) (c + 1) (.unary op e) := by
  intro k f hw
  cases hw
  case operand k hw =>
    obtain ⟨hk, hf⟩ := h k f hw
    omega

theorem binary (op : BinaryOp) (hl : Fits n (c + 1) left) (hr : Fits n c right) :
    Fits (n + 1) (c + 1) (.binary op left right) := by
  intro k f hw
  cases hw
  case left f hw =>
    obtain ⟨hk, hf⟩ := hl k f hw
    omega
  case right k hw =>
    obtain ⟨hk, hf⟩ := hr k f hw
    omega

theorem conditional {condition whenTrue whenFalse : Expr} (hc : Fits n (c + 1) condition)
    (ht : Fits n c whenTrue) (hf : Fits n c whenFalse) :
    Fits (n + 1) (c + 1) (.conditional condition whenTrue whenFalse) := by
  intro k f hw
  cases hw
  case condition f hw =>
    obtain ⟨hk, hf⟩ := hc k f hw
    omega
  case whenTrue k hw =>
    obtain ⟨hk, hf⟩ := ht k f hw
    omega
  case whenFalse k hw =>
    obtain ⟨hk, hf⟩ := hf k f hw
    omega

theorem negated (h : Fits n c e) : Fits (n + 1) (c + 1) (negated e) := by
  unfold Expr.negated
  split
  case h_1 =>
    split
    case isTrue  => exact h.unary .neg
    case isFalse => exact literal _ n c
  case h_2 => exact literal _ n c
  case h_3 => exact h.unary .neg

theorem pos (h : Fits n c e) : 0 < c := by
  obtain ⟨k, f, hw, _⟩ := exists_longest_way e
  exact Nat.lt_of_le_of_lt (Nat.zero_le k) (h k f hw).1

end Fits

-- The greatest height of an expression that is read with so many levels left. It is a choice on a
-- chain of each of the six ranks, and every chain may take all the levels but one. The innermost
-- operand is a read with an accessor, for which all levels but one are left again.
def greatestHeight : Nat → Nat
  | 0        => 0
  | 1        => 1
  | room + 2 => greatestHeight (room + 1) + 6 * (room + 1) + 2

theorem greatestHeight_succ (room : Nat) : greatestHeight room + 1 ≤ greatestHeight (room + 1) := by
  cases room
  case zero => decide
  case succ room =>
    rw [greatestHeight]
    omega

theorem greatestHeight_mono {room' room : Nat} (h : room' ≤ room) :
    greatestHeight room' ≤ greatestHeight room := by
  induction h
  case refl => exact Nat.le_refl _
  case step room _ ih => exact Nat.le_trans ih (Nat.le_of_succ_le (greatestHeight_succ room))

def Returns {α : Type} (p : α → Prop) (x : Except ParseError α) : Prop :=
  ∀ a, x = .ok a → p a

namespace Returns

variable {α β : Type} {p q : α → Prop} {x : Except ParseError α}

theorem error (e : ParseError) : Returns p (.error e) := by
  rintro a ⟨⟩

theorem ok {a : α} (h : p a) : Returns p (.ok a) := by
  rintro _ ⟨⟩
  exact h

theorem mono (h : Returns p x) (hq : ∀ a, p a → q a) : Returns q x :=
  fun a ha => hq a (h a ha)

theorem bind {r : β → Prop} {f : α → Except ParseError β} (h : Returns p x)
    (hf : ∀ a, p a → Returns r (f a)) : Returns r (x >>= f) := by
  cases x
  case error e => exact error e
  case ok a    => exact hf a (h a rfl)

end Returns

abbrev Within (n c : Nat) (x : Except ParseError (Expr × Lexemes)) : Prop :=
  Returns (fun y => y.1.Fits n c) x

theorem Within.mono {m n c d : Nat} {x : Except ParseError (Expr × Lexemes)} (h : Within m c x)
    (hm : m ≤ n) (hc : c ≤ d) : Within n d x :=
  Returns.mono h fun _ hy => hy.mono hm hc

section

variable {start opened m n c room : Nat} {ts : Lexemes} {e : Expr}

theorem close_within {token : Token} {inner : Parser} (h : Within n c (inner ts)) :
    Within n c (close start opened token inner ts) := by
  refine h.bind fun y hy => ?_
  obtain ⟨e, ts⟩ := y
  cases ts
  case cons l ts =>
    simp only
    split
    case isTrue  => exact .ok hy
    case isFalse => exact .error _
  all_goals exact .error _

theorem accessor_returns (e : Expr) (opened : Nat) :
    Returns (fun step => ∀ d, step = .computed d → d = e) (accessor e opened) := by
  unfold accessor
  split
  case h_1 i =>
    split
    case isTrue  => exact .error _
    case isFalse => exact .ok (by simp)
  case h_2 => exact .ok (by simp)
  case h_3 => exact .error _
  case h_4 => exact .ok (by simp)

theorem accessors_returns {nested : Nat → Parser} (h : ∀ offset ts, Within n c (nested offset ts))
    (fuel : Nat) (ts : Lexemes) :
    Returns (fun y => ∀ e, .computed e ∈ y.1 → Fits n c e) (accessors start nested fuel ts) := by
  induction fuel generalizing ts
  case zero => exact .ok (by simp)
  case succ fuel ih =>
    unfold accessors
    split
    case h_4 =>
      split
      case h_1 => exact .error _
      case h_2 => exact (ih _).bind fun y hy => .ok (by simpa using hy)
    case h_7 =>
      refine (close_within (h _ _)).bind fun y hy => (accessor_returns y.1 _).bind fun step hs => ?_
      refine (ih _).bind fun z hz => .ok fun e he => ?_
      rcases List.mem_cons.mp he with he | he
      case inl => exact hs e he.symm ▸ hy
      case inr => exact hz e he
    case h_8 => exact .ok (by simp)
    all_goals exact .error _

theorem primary_within {nested : Nat → Parser} (h : ∀ offset ts, Within n c (nested offset ts))
    (ts : Lexemes) : Within (n + 1) (c + 1) (primary start nested ts) := by
  cases ts
  case cons l ts =>
    obtain ⟨t, _, _⟩ := l
    cases t
    case identifier context =>
      exact (accessors_returns h _ ts).bind fun y hy => .ok (.read context hy)
    case leftParen | openBinding =>
      exact Within.mono (close_within (h _ ts)) (Nat.le_succ n) (Nat.le_succ c)
    case int | double | string | trueWord | falseWord | nullWord => exact .ok (.literal _ n c)
    all_goals exact .error _
  all_goals exact .error _

section

variable {nested : Nat → Nat → Parser} (h : ∀ room' ≤ room, ∀ offset ts,
  Within (greatestHeight room') room' (nested room' offset ts))

include h

theorem signed_within (ts : Lexemes) :
    Within (greatestHeight room + 1) (room + 1) (signed start nested room ts) := by
  induction room generalizing ts
  case zero =>
    unfold signed
    split
    case h_3 => exact primary_within (h 0 (Nat.le_refl 0)) _
    all_goals exact .error _
  case succ room ih =>
    have hg := Nat.succ_le_succ (greatestHeight_succ room)
    have ih := ih fun room' hr => h room' (Nat.le_succ_of_le hr)
    unfold signed
    split
    case h_1 => exact (ih _).bind fun y hy => .ok ((hy.unary .not).mono hg (Nat.le_refl _))
    case h_2 => exact (ih _).bind fun y hy => .ok (hy.negated.mono hg (Nat.le_refl _))
    case h_3 => exact primary_within (h (room + 1) (Nat.le_refl _)) _

omit h in
-- Every operator puts what was read before it one step further from the root, at no cost.
theorem chain_within {op? : Token → Option BinaryOp} {operand : Nat → Parser}
    (h : ∀ room' ≤ room, ∀ ts, Within m (room' + 1) (operand room' ts)) (hm : m ≤ n)
    (hc : room ≤ c) (he : e.Fits n (c + 1)) (ts : Lexemes) :
    Within (n + room) (c + 1) (chain op? operand room e ts) := by
  induction room generalizing n e ts
  case zero =>
    unfold chain
    split
    case h_1 => exact .error _
    case h_2 => exact .ok he
    case h_3 =>
      split
      case h_1 => exact .ok he
      case h_2 => exact .error _
  case succ room ih =>
    have he' : e.Fits (n + (room + 1)) (c + 1) := he.mono (Nat.le_add_right _ _) (Nat.le_refl _)
    unfold chain
    split
    case h_1 => exact .error _
    case h_2 => exact .ok he'
    case h_3 =>
      split
      case h_1 => exact .ok he'
      case h_2 op _ =>
        refine (h room (Nat.le_succ room) _).bind fun y hy => ?_
        have ho := fun room' hr => h room' (Nat.le_succ_of_le hr)
        have hb := Fits.binary op he (hy.mono hm hc)
        have hi := ih ho (Nat.le_succ_of_le hm) (Nat.le_of_succ_le hc) hb y.2
        exact hi.mono (by omega) (Nat.le_refl _)

omit h in
theorem chained_within {op? : Token → Option BinaryOp} {operand : Nat → Parser}
    (h : ∀ room' ≤ room, ∀ ts, Within n (room' + 1) (operand room' ts)) (ts : Lexemes) :
    Within (n + room) (room + 1) (chained op? operand room ts) :=
  (h room (Nat.le_refl room) ts).bind fun y hy =>
    chain_within h (Nat.le_refl n) (Nat.le_refl room) hy y.2

theorem layer_within {k : Nat} (hk : k ≤ 6) (ts : Lexemes) :
    Within (greatestHeight room + 1 + k * room) (room + 1)
      (layer start nested (7 - k) room ts) := by
  induction k generalizing room ts
  case zero => exact (signed_within h ts).mono (by omega) (Nat.le_refl _)
  case succ k ih =>
    have hl : 7 - (k + 1) + 1 = 7 - k := by omega
    have ho : ∀ room' ≤ room, ∀ ts, Within (greatestHeight room + 1 + k * room) (room' + 1)
        (layer start nested (7 - k) room' ts) := by
      intro room' hr ts
      have hg := greatestHeight_mono hr
      have hm := Nat.mul_le_mul_left k hr
      have hi := ih (fun room'' hr' => h room'' (Nat.le_trans hr' hr)) (by omega) ts
      exact hi.mono (by omega) (Nat.le_refl _)
    rw [layer_eq _ _ (by omega) (by omega), hl]
    exact (chained_within ho ts).mono (by rw [Nat.succ_mul]; omega) (Nat.le_refl _)

theorem choice_within (ts : Lexemes) :
    Within (greatestHeight (room + 1)) (room + 1) (choice start nested room ts) := by
  have hd : greatestHeight room + 1 + 6 * room ≤ greatestHeight (room + 1) := by
    cases room
    case zero      => decide
    case succ room =>
      rw [greatestHeight]
      omega
  refine (layer_within h (Nat.le_refl 6) ts).bind fun y hy => ?_
  obtain ⟨condition, ts⟩ := y
  simp only
  split
  case h_1 => exact .error _
  case h_2 =>
    refine (h room (Nat.le_refl room) _ _).bind fun z ht => ?_
    obtain ⟨whenTrue, ts⟩ := z
    simp only
    split
    case h_3 =>
      refine (h room (Nat.le_refl room) _ _).bind fun z hf => .ok ?_
      cases room
      case zero => exact absurd ht.pos (Nat.lt_irrefl 0)
      case succ room =>
        have hb := Fits.conditional hy (ht.mono (by omega) (Nat.le_refl _))
          (hf.mono (by omega) (Nat.le_refl _))
        exact hb.mono (by rw [greatestHeight]; omega) (Nat.le_refl _)
    all_goals exact .error _
  case h_3 => exact .ok (hy.mono hd (Nat.le_refl _))

end

theorem parseNested_within (fuel room offset : Nat) (ts : Lexemes) :
    Within (greatestHeight room) room (parseNested start fuel room offset ts) := by
  induction fuel generalizing room offset ts
  case zero => cases room <;> exact .error _
  case succ fuel ih =>
    cases room
    case zero      => exact .error _
    case succ room => exact choice_within (fun room' _ => ih room') ts

end

theorem parseTokens_closes (start : Nat) (ts : Lexemes) :
    Returns (fun y => ∃ l ts', l.token = .closeBrace ∧ l.stop = y.2 ∧
      parseNested start maxDepth maxDepth start ts = .ok (y.1, .cons l ts')) (parseTokens start ts) := by
  unfold parseTokens
  split
  case h_1 => exact .error _
  case h_2 =>
    refine Returns.bind (p := fun y => parseNested start maxDepth maxDepth start ts = .ok y)
      (fun _ hy => hy) fun y hy => ?_
    obtain ⟨e, ts⟩ := y
    simp only
    split
    case h_3 => exact .ok ⟨_, _, rfl, rfl, hy⟩
    all_goals exact .error _

theorem parseBinding_scans (start : Nat) (cs : List Char) :
    Returns (fun y => ∃ ts, Lexemes.scan (cs.length + 1) 0 (start + 2) cs = (ts, y.2.2) ∧
      parseTokens start ts = .ok (y.1, y.2.1)) (parseBinding start cs) :=
  Returns.bind (p := fun y => parseTokens start _ = .ok y) (fun _ hy => hy)
    fun _ hy => .ok ⟨_, rfl, hy⟩

theorem parseTokens_returns (start : Nat) (ts : Lexemes) :
    Returns (fun y => y.1.Fits (greatestHeight maxDepth) maxDepth) (parseTokens start ts) := by
  refine (parseTokens_closes start ts).mono fun y hy => ?_
  obtain ⟨l, ts', -, -, hn⟩ := hy
  exact parseNested_within maxDepth maxDepth start ts _ hn

theorem parseBinding_returns (start : Nat) (cs : List Char) :
    Returns (fun y => y.1.Fits (greatestHeight maxDepth) maxDepth) (parseBinding start cs) :=
  (parseTokens_returns start _).bind fun _ hy => .ok hy

section Tower

variable {op : BinaryOp} {quoted : String → Bool} {e : Expr} {n : Nat}

def extend (op : BinaryOp) : Nat → Expr → Expr
  | 0, e     => e
  | n + 1, e => binary op (extend op n e) (read "a" [])

-- The choice on a chain of every rank, around an accessor that is a tower itself.
def tower : Nat → Expr
  | 0     => read "a" []
  | n + 1 =>
    conditional
      (extend .or (n + 1) <| extend .and (n + 1) <| extend .eq (n + 1) <| extend .lt (n + 1) <|
        extend .add (n + 1) <| extend .mul (n + 1) <| read "a" [.computed (tower n)])
      (read "a" []) (read "a" [])

theorem height_extend : (extend op n e).height = e.height + n := by
  induction n
  case zero => rfl
  case succ n ih =>
    have hp := height_pos e
    simp only [extend, height, ih, stepHeight]
    omega

theorem height_tower (n : Nat) : (tower n).height = greatestHeight (n + 1) := by
  induction n
  case zero => rfl
  case succ n ih =>
    simp only [tower, height, height_extend, stepHeight, ih, greatestHeight]
    omega

theorem writable_a : (read "a" []).Writable :=
  ⟨by decide, by decide, trivial⟩

theorem writable_extend (h : e.Writable) : (extend op n e).Writable := by
  induction n
  case zero => exact h
  case succ n ih => exact ⟨ih, writable_a⟩

theorem writable_tower (n : Nat) : (tower n).Writable := by
  induction n
  case zero => exact writable_a
  case succ n ih =>
    have hl : ¬(tower n).isLiteral := by
      cases n <;> simp [tower, isLiteral]
    have hr : (read "a" [.computed (tower n)]).Writable := ⟨by decide, by decide, ih, hl, trivial⟩
    refine ⟨?_, writable_a, writable_a⟩
    iterate 6 apply writable_extend
    exact hr

theorem rank_extend (h : op.rank ≤ e.rank) : op.rank ≤ (extend op n e).rank := by
  cases n
  case zero   => exact h
  case succ n => exact Nat.le_refl _

theorem chainLength_extend (h : op.rank < e.rank) : (extend op n e).chainLength op.rank = n := by
  induction n
  case zero => exact chainLength_eq_zero (Nat.ne_of_gt h)
  case succ n ih => simp [extend, chainLength, ih]

theorem depth_extend (h : op.rank < e.rank) :
    (extend op n e).depth quoted = max (e.depth quoted) n := by
  induction n
  case zero => exact (Nat.max_zero _).symm
  case succ n ih =>
    have hl := groupedDepth_of_le (rank_extend (n := n) (Nat.le_of_lt h))
    have hr : groupedDepth (op.rank + 1) (read "a" []).rank 0 = 0 :=
      groupedDepth_of_le (Nat.succ_le_succ op.rank_le) 0
    simp only [extend, depth, stepDepth, chainLength_extend h, ih, hl, hr]
    omega

theorem depth_tower (n : Nat) : (tower n).depth quoted = n := by
  induction n
  case zero => rfl
  case succ n ih =>
    have hr : ∀ {op op' : BinaryOp} {e : Expr}, op.rank < op'.rank →
        op.rank < (extend op' (n + 1) e).rank := id
    have hc : ∀ (e : Expr) (d : Nat), groupedDepth 1 (extend .or (n + 1) e).rank d = d :=
      fun _ => groupedDepth_of_le (Nat.le_refl 1)
    have hm : BinaryOp.mul.rank < (read "a" [.computed (tower n)]).rank := Nat.lt_succ_self 6
    rw [tower, depth, hc, depth_extend (hr (by decide)), depth_extend (hr (by decide)),
      depth_extend (hr (by decide)), depth_extend (hr (by decide)), depth_extend (hr (by decide)),
      depth_extend hm]
    simp only [depth, stepDepth, ih]
    omega

end Tower

-- The height is within the limit exactly if no way with a free step is too long: the other steps stay
-- within the limit on every way. With the free ones they come to no more than the greatest height.
theorem height_le_maxDepth_iff {start stop : Nat} {cs rest : List Char} {e : Expr}
    (h : parseBinding start cs = .ok (e, stop, rest)) :
    (e.height ≤ maxDepth ↔
      ∀ counted free, Way e counted free → 0 < free → counted + free < maxDepth) ∧
    (∀ counted free, Way e counted free → counted < maxDepth) ∧ e.height ≤ 12223 := by
  have hg : greatestHeight maxDepth = 12223 := rfl
  have hf := hg ▸ parseBinding_returns start cs _ h
  have hc : ∀ k f, Way e k f → k < maxDepth := fun k f hw => (hf k f hw).1
  refine ⟨⟨fun hm k f hw _ => height_le_iff.mp hm k f hw, fun hm => ?_⟩, hc, ?_⟩
  case refine_1 =>
    refine height_le_iff.mpr fun k f hw => ?_
    cases f
    case zero   => exact hc k 0 hw
    case succ f => exact hm k (f + 1) hw (Nat.succ_pos f)
  case refine_2 => exact height_le_iff.mpr fun k f hw => (hf k f hw).2

theorem sum_ways : parseBinding 0 "a + b\x7d".toList =
      .ok (binary .add (read "a" []) (read "b" []), 8, []) ∧
    ∀ counted free, Way (binary .add (read "a" []) (read "b" [])) counted free → 0 < free →
      counted + free < maxDepth := by
  have hr : parseBinding 0 "a + b\x7d".toList =
    .ok (binary .add (read "a" []) (read "b" []), 8, []) := rfl
  exact ⟨hr, (height_le_maxDepth_iff hr).1.mp (by decide)⟩

-- The signs take all the levels but one, and give them back before the sum is read.
theorem exists_height_gt : ¬∀ start cs e stop rest,
    parseBinding start cs = .ok (e, stop, rest) → e.height ≤ maxDepth := by
  intro h
  have hr : parseBinding 0 (List.replicate 63 '!' ++ "a + b\x7d".toList) = .ok (_, _, _) := rfl
  exact absurd (h _ _ _ _ _ hr) (by decide)

theorem exists_height_eq (start : Nat) (after : List Char) : ∃ cs e stop,
    parseBinding start (cs ++ after) = .ok (e, stop, after) ∧ e.height = 12223 := by
  have hd : (tower 63).depth (fun _ => false) < maxDepth := by
    rw [depth_tower]
    decide
  have hp := (parseBinding_leads (writable_tower 63) (written_spaced _) start after).1 hd
  exact ⟨_, _, _, hp, height_tower 63⟩

end BindingEngine.Expr
