import MaxminddbRust.Concurrent.Linearizable
import Mathlib.Algebra.BigOperators.Finsupp.Basic

/-!
Calls that own resources of the state they share, and systems that implement other systems.

* `Ledger`: what the calls in flight own in all, and how that and the shared state stand for the
  state of another system; what each step gains and gives up, by its label.
* `Ledger.Implements`: the judgement. A program that owns `m` does what another program does,
  step by step or by steps that are nothing to it, whatever the others own (`f`, the frame).
  `Implements.bind`, `andThen`, `map`: its rules; `implements_zoom`: a program on a part of the
  state implements itself, whatever it owns.
* `Ledger.Holds`: the local obligations. `Holds.run`: then every run has a run of the other system
  with the same calls and returns, and what the calls in flight own adds up to what the state
  says.
-/

namespace Concurrent

variable {ι τ ℓ σ ℓ' σ' α β γ ε M : Type}

/-- The accounts of a system whose calls own resources in `M`: how the sum of what they own and
the shared state stand for a state of another system, what a call in flight relies on, what its
steps guarantee, and what it gains and gives up by them. -/
structure Ledger (τ ℓ σ σ' M : Type) where
  inv : M → σ → σ' → Prop
  live : τ → σ → Prop
  guar : τ → σ → ℓ → σ → Prop
  gain : ℓ → M
  loss : ℓ → M

namespace Ledger

section Programs

variable [AddCommMonoid M] (L : Ledger τ ℓ σ σ' M)

/-- **The judgement**: of a call `c`, the program `p` that owns `m` does what `q` does. Each of its
steps, taken while the others own `f`, is a step of `q` or nothing to it, keeps the accounts and
obeys the guarantee; when it returns, `Q` says what it owns then and what `q` returns. -/
def Implements (c : τ) :
    (M → α → β → Prop) → M → Prog ℓ σ α → Prog ℓ' σ' β → Prop
  | Q, m, .ret a, q => ∃ b, q = .ret b ∧ Q m a b
  | Q, m, .atom label update next, q => ∀ s t f, L.inv (m + f) s t → L.live c s →
      L.guar c s (label s) (update s) ∧ L.live c (update s) ∧
        ∃ m', m' + L.loss (label s) = m + L.gain (label s) ∧
          (L.inv (m' + f) (update s) t ∧ Implements c Q m' (next s) q ∨
            ∃ label' update' next', q = .atom label' update' next' ∧
              L.inv (m' + f) (update s) (update' t) ∧ Implements c Q m' (next s) (next' t))

namespace Implements

variable {L} {c : τ} {m : M}

/-- Returning what the other program returns. -/
lemma ret {Q : M → α → β → Prop} {a : α} {b : β} (h : Q m a b) :
    L.Implements c Q m (.ret a : Prog ℓ σ α) (.ret b : Prog ℓ' σ' β) := ⟨b, rfl, h⟩

/-- The rule of sequencing. -/
lemma bind {α' β' : Type} {R : M → α' → β' → Prop} {f : α → Prog ℓ σ α'}
    {g : β → Prog ℓ' σ' β'} {p : Prog ℓ σ α} :
    ∀ {Q : M → α → β → Prop} {m : M} {q : Prog ℓ' σ' β}, L.Implements c Q m p q →
      (∀ m a b, Q m a b → L.Implements c R m (f a) (g b)) →
        L.Implements c R m (p.bind f) (q.bind g) := by
  induction p with
  | ret a =>
      rintro Q m q ⟨b, rfl, h⟩ hf
      exact hf m a b h
  | atom label update next ih =>
      intro Q m q h hf s t f hinv hlive
      obtain ⟨hguar, hlive', m', hm, hstep⟩ := h s t f hinv hlive
      refine ⟨hguar, hlive', m', hm, ?_⟩
      rcases hstep with ⟨hinv', hnext⟩ | ⟨label', update', next', rfl, hinv', hnext⟩
      · exact Or.inl ⟨hinv', ih s hnext hf⟩
      · exact Or.inr ⟨label', update', _, rfl, hinv', ih s hnext hf⟩

/-- Steps after which the other program has nothing more to do. -/
lemma bind_left {α' : Type} {R : M → α' → β → Prop} {Q : M → α → β → Prop} {p : Prog ℓ σ α}
    {q : Prog ℓ' σ' β} {f : α → Prog ℓ σ α'} (h : L.Implements c Q m p q)
    (hf : ∀ m a b, Q m a b → L.Implements c R m (f a) (.ret b : Prog ℓ' σ' β)) :
    L.Implements c R m (p.bind f) q := by
  have hbind := bind h hf
  rwa [Prog.bind_ret] at hbind

/-- The rule of sequencing with early exit. -/
lemma andThen {α' β' : Type} {Q : M → Except ε α → Except ε β → Prop}
    {R : M → Except ε α' → Except ε β' → Prop} {p : Prog ℓ σ (Except ε α)}
    {q : Prog ℓ' σ' (Except ε β)} {f : α → Prog ℓ σ (Except ε α')}
    {g : β → Prog ℓ' σ' (Except ε β')} (h : L.Implements c Q m p q)
    (herr : ∀ m e b, Q m (.error e) b → b = .error e ∧ R m (.error e) (.error e))
    (hok : ∀ m a b, Q m (.ok a) b → ∃ b', b = .ok b' ∧ L.Implements c R m (f a) (g b')) :
    L.Implements c R m (p.andThen f) (q.andThen g) := by
  refine bind h fun m r b hQ => ?_
  cases r with
  | error e =>
      obtain ⟨rfl, hR⟩ := herr m e b hQ
      exact ret hR
  | ok a =>
      obtain ⟨b', rfl, hnext⟩ := hok m a b hQ
      exact hnext

/-- The rule of mapping. -/
lemma map {α' β' : Type} {Q : M → α → β → Prop} {R : M → α' → β' → Prop} {p : Prog ℓ σ α}
    {q : Prog ℓ' σ' β} {f : α → α'} {g : β → β'} (h : L.Implements c Q m p q)
    (hf : ∀ m a b, Q m a b → R m (f a) (g b)) : L.Implements c R m (p.map f) (q.map g) :=
  bind h fun m a b hQ => ret (hf m a b hQ)

end Implements

variable {L} {c : τ} {m : M}

/-- **A program on a part of the state implements itself**: whatever it owns it still owns at the
end, if its steps keep the accounts and are no exchanges of resources. -/
lemma implements_zoom {get : σ → σ'} {set : σ' → σ → σ} {emb : ℓ' → ℓ} {I : σ' → Prop}
    {G : σ' → ℓ' → σ' → Prop} (hgain : ∀ l, L.gain (emb l) = 0) (hloss : ∀ l, L.loss (emb l) = 0)
    (hget : ∀ s t f, L.inv (m + f) s t → L.live c s → t = get s ∧ I (get s))
    (hset : ∀ s l t f, L.inv (m + f) s (get s) → L.live c s → I t → G (get s) l t →
      L.guar c s (emb l) (set t s) ∧ L.live c (set t s) ∧ L.inv (m + f) (set t s) t)
    {p : Prog ℓ' σ' α} : ∀ {Q : List ℓ' → α → Prop}, p.Sat I G Q →
      L.Implements c (fun m' a b => m' = m ∧ a = b) m (p.zoom get set emb) p := by
  induction p with
  | ret a => exact fun _ => .ret ⟨rfl, rfl⟩
  | atom label update next ih =>
      intro Q h s t f hinv hlive
      obtain ⟨rfl, hI⟩ := hget s t f hinv hlive
      obtain ⟨hI', hG, hnext⟩ := h _ hI
      obtain ⟨hguar, hlive', hinv'⟩ := hset s _ _ f hinv hlive hI' hG
      refine ⟨hguar, hlive', m, by rw [hgain, hloss], Or.inr ⟨_, _, _, rfl, hinv', ?_⟩⟩
      exact ih _ hnext

/-- What a call has come to at its end: it owns nothing, and returns what the other returns. -/
def Done (m : M) (a b : α) : Prop := m = 0 ∧ a = b

variable (L) in
/-- The system implements the other one: the local obligations. -/
structure Holds (S : System τ ℓ σ α) (S' : System τ ℓ' σ' α) : Prop where
  start : ∀ c s t m, S.canStart c s → L.inv m s t → L.live c s ∧ S'.canStart c t
  prog : ∀ c, L.Implements c Done 0 (S.prog c) (S'.prog c)
  noninterference : ∀ c c' s l s', L.guar c s l s' → L.live c' s → L.live c' s'
  env : ∀ running s s' t m, S.env running s s' → L.inv m s t → (∀ c, running c → L.live c s) →
    (∀ c, running c → L.live c s') ∧
      (L.inv m s' t ∨ ∃ t', L.inv m s' t' ∧ S'.env running t t')

end Programs

/-! ### Runs -/

section Runs

variable [AddCommMonoid M] {L : Ledger τ ℓ σ σ' M}

/-- What a call in flight stands for: the same call of the other system, with a program that its
own implements. What it owns is what it has gained and not given up. -/
inductive Follows (L : Ledger τ ℓ σ σ' M) (s : σ) :
    M → Option (Task τ ℓ σ α) → Option (Task τ ℓ' σ' α) → Prop
  | idle : Follows L s 0 none none
  | call {m : M} {c : τ} {tr : List ℓ} {tr' : List ℓ'} {p : Prog ℓ σ α} {q : Prog ℓ' σ' α}
      (live : L.live c s) (account : m + (tr.map L.loss).sum = (tr.map L.gain).sum)
      (h : L.Implements c Done m p q) : Follows L s m (some ⟨c, tr, p⟩) (some ⟨c, tr', q⟩)

/-- What all calls in flight own in all. -/
noncomputable def total (held : ι →₀ M) : M := held.sum fun _ m => m

lemma total_zero : total (0 : ι →₀ M) = 0 := Finsupp.sum_zero_index

/-- The sum of what is owned, as what one caller owns and the frame. -/
lemma exists_frame (held : ι →₀ M) (i : ι) :
    ∃ f, total held = held i + f ∧ ∀ m, total (held.update i m) = m + f := by
  classical
  refine ⟨total (held.erase i), (Finsupp.add_sum_erase' held i _ fun _ => rfl).symm, fun m => ?_⟩
  have hsum := (Finsupp.add_sum_erase' (held.update i m) i (fun _ m => m) fun _ => rfl).symm
  rwa [Finsupp.erase_update_eq_erase, Finsupp.coe_update, Function.update_self] at hsum

/-- Nobody owns anything iff each caller owns nothing. -/
lemma total_eq_zero_iff {held : ι →₀ ℕ} : total held = 0 ↔ ∀ i, held i = 0 := by
  refine ⟨fun h i => ?_, fun h => ?_⟩
  · obtain ⟨f, hheld, -⟩ := exists_frame held i
    exact (Nat.add_eq_zero_iff.mp (hheld.symm.trans h)).1
  · rw [show held = 0 from Finsupp.ext h, total_zero]

/-- What a pool stands for: a pool of the other system with the same calls in flight. -/
structure Tracks (L : Ledger τ ℓ σ σ' M) (P : Pool ι τ ℓ σ α) (P' : Pool ι τ ℓ' σ' α)
    (held : ι →₀ M) : Prop where
  inv : L.inv (total held) P.shared P'.shared
  tasks : ∀ i, L.Follows P.shared (held i) (P.tasks i) (P'.tasks i)

namespace Follows

/-- A step of another call, or of the environment, leaves it alone. -/
lemma congr {s s' : σ} {m : M} {o : Option (Task τ ℓ σ α)} {o' : Option (Task τ ℓ' σ' α)}
    (h : L.Follows s m o o') (hlive : ∀ t, o = some t → L.live t.call s → L.live t.call s') :
    L.Follows s' m o o' := by
  cases h with
  | idle => exact .idle
  | call live account h => exact .call (hlive _ rfl live) account h

lemma eq_none_iff {s : σ} {m : M} {o : Option (Task τ ℓ σ α)} {o' : Option (Task τ ℓ' σ' α)}
    (h : L.Follows s m o o') : o = none ↔ o' = none := by
  cases h <;> simp

end Follows

namespace Tracks

variable {P : Pool ι τ ℓ σ α} {P' : Pool ι τ ℓ' σ' α} {held : ι →₀ M}

/-- A call in flight is one of the other system as well: what it relies on is there, what it owns
is what it has gained and not given up, and its program implements the other one. -/
lemma call (h : L.Tracks P P' held) {i : ι} {t : Task τ ℓ σ α} (ht : P.tasks i = some t) :
    ∃ tr' q, P'.tasks i = some ⟨t.call, tr', q⟩ ∧ L.live t.call P.shared ∧
      held i + (t.emitted.map L.loss).sum = (t.emitted.map L.gain).sum ∧
      L.Implements t.call Done (held i) t.rest q := by
  have hi := h.tasks i
  rw [ht] at hi
  generalize held i = m at hi ⊢
  generalize P'.tasks i = o at hi ⊢
  cases hi with
  | call live account himp => exact ⟨_, _, rfl, live, account, himp⟩

/-- The calls in flight are the same. -/
lemma running_eq (h : L.Tracks P P' held) : P'.Running = P.Running := by
  funext c
  refine propext ⟨?_, ?_⟩
  · rintro ⟨i, t', ht', rfl⟩
    cases ht : P.tasks i with
    | none =>
        rw [(h.tasks i).eq_none_iff.mp ht] at ht'
        cases ht'
    | some t =>
        obtain ⟨tr', q, hq, -⟩ := h.call ht
        obtain rfl := Option.some.inj (hq.symm.trans ht')
        exact ⟨i, t, ht, rfl⟩
  · rintro ⟨i, t, ht, rfl⟩
    obtain ⟨tr', q, hq, -⟩ := h.call ht
    exact ⟨i, _, hq, rfl⟩

/-- What the calls in flight rely on is there. -/
lemma live (h : L.Tracks P P' held) : ∀ c, P.Running c → L.live c P.shared := by
  rintro c ⟨i, t, ht, rfl⟩
  obtain ⟨-, -, -, hlive, -⟩ := h.call ht
  exact hlive

/-- A caller without a call owns nothing. -/
lemma held_eq_zero (h : L.Tracks P P' held) {i : ι} (hi : P.tasks i = none) : held i = 0 := by
  have hfollows := h.tasks i
  rw [hi] at hfollows
  generalize held i = m at hfollows
  generalize P'.tasks i = o at hfollows
  cases hfollows
  rfl

variable [DecidableEq ι]

/-- One caller moves: the others go on as they were. -/
lemma update (h : L.Tracks P P' held) {i : ι} {m f : M} {s : σ} {t : σ'}
    {o : Option (Task τ ℓ σ α)} {o' : Option (Task τ ℓ' σ' α)}
    (hf : ∀ m, total (held.update i m) = m + f) (hinv : L.inv (m + f) s t)
    (hlive : ∀ c, L.live c P.shared → L.live c s) (hi : L.Follows s m o o') :
    L.Tracks ⟨s, Function.update P.tasks i o⟩ ⟨t, Function.update P'.tasks i o'⟩
      (held.update i m) := by
  refine ⟨by rwa [hf], fun j => ?_⟩
  show L.Follows s (held.update i m j) (Function.update P.tasks i o j)
    (Function.update P'.tasks i o' j)
  rw [Finsupp.coe_update]
  by_cases hji : j = i
  · subst hji
    rw [Function.update_self, Function.update_self, Function.update_self]
    exact hi
  · rw [Function.update_of_ne hji, Function.update_of_ne hji, Function.update_of_ne hji]
    exact (h.tasks j).congr fun t _ => hlive t.call

end Tracks

variable [DecidableEq ι] {S : System τ ℓ σ α} {S' : System τ ℓ' σ' α}

namespace Holds

variable (hL : L.Holds S S') {P P' : Pool ι τ ℓ σ α} {R : Pool ι τ ℓ' σ' α} {held : ι →₀ M}

include hL

/-- A step of a program: it obeys its guarantee, and is a step of the other system or nothing. -/
lemma atom (h : L.Tracks P R held) {i : ι} {c : τ} {tr : List ℓ} {label : σ → ℓ} {update : σ → σ}
    {next : σ → Prog ℓ σ α} (ht : P.tasks i = some ⟨c, tr, .atom label update next⟩) :
    L.guar c P.shared (label P.shared) (update P.shared) ∧
      ∃ R' held', (R' = R ∨ ∃ l, S'.Step R (.step i c l) R') ∧
        L.Tracks ⟨update P.shared, Function.update P.tasks i
          (some ⟨c, tr ++ [label P.shared], next P.shared⟩)⟩ R' held' := by
  obtain ⟨f, hheld, hf⟩ := exists_frame held i
  have hinv := h.inv
  rw [hheld] at hinv
  obtain ⟨tr', q, hR, live, account, himp⟩ := h.call ht
  obtain ⟨hguar, hlive', m', hm', hstep⟩ := himp _ _ f hinv live
  have hothers : ∀ c', L.live c' P.shared → L.live c' (update P.shared) := fun c' =>
    hL.noninterference c c' _ _ _ hguar
  have haccount : m' + ((tr ++ [label P.shared]).map L.loss).sum
      = ((tr ++ [label P.shared]).map L.gain).sum := by
    simp only [List.map_append, List.sum_append, List.map_singleton, List.sum_singleton]
    calc m' + ((tr.map L.loss).sum + L.loss (label P.shared))
        = m' + L.loss (label P.shared) + (tr.map L.loss).sum := by
          rw [add_comm (tr.map L.loss).sum, ← add_assoc]
      _ = held i + L.gain (label P.shared) + (tr.map L.loss).sum := by rw [hm']
      _ = held i + (tr.map L.loss).sum + L.gain (label P.shared) := add_right_comm _ _ _
      _ = (tr.map L.gain).sum + L.gain (label P.shared) := by rw [account]
  refine ⟨hguar, ?_⟩
  rcases hstep with ⟨hinv', hnext⟩ | ⟨label', update', next', rfl, hinv', hnext⟩
  · refine ⟨R, held.update i m', Or.inl rfl, ?_⟩
    have hcall : L.Follows (update P.shared) m'
        (some ⟨c, tr ++ [label P.shared], next P.shared⟩) (some ⟨c, tr', q⟩) :=
      .call hlive' haccount hnext
    have htracks := h.update hf hinv' hothers hcall
    have hsame : Function.update R.tasks i (some ⟨c, tr', q⟩) = R.tasks :=
      Function.update_eq_self_iff.mpr hR.symm
    rwa [hsame] at htracks
  · have hcall : L.Follows (update P.shared) m'
        (some ⟨c, tr ++ [label P.shared], next P.shared⟩)
        (some ⟨c, tr' ++ [label' R.shared], next' R.shared⟩) := .call hlive' haccount hnext
    exact ⟨_, held.update i m', Or.inr ⟨_, .step hR⟩, h.update hf hinv' hothers hcall⟩

/-- **One event**: a step that is nothing to the other system, or an event of it that looks the
same to the callers. -/
lemma step (h : L.Tracks P R held) {e : Event ι τ ℓ α} (hs : S.Step P e P') :
    ∃ R' held', L.Tracks P' R' held' ∧
      (R' = R ∧ e.seen id = none ∨ ∃ e', S'.Step R e' R' ∧ e'.seen id = e.seen id) := by
  cases hs with
  | @call i c idle hstart =>
      obtain ⟨f, hheld, hf⟩ := exists_frame held i
      rw [h.held_eq_zero idle] at hheld
      obtain ⟨hlive, hstart'⟩ := hL.start c _ _ _ hstart h.inv
      have hinv := h.inv
      rw [hheld] at hinv
      have hcall : L.Follows P.shared 0 (some ⟨c, [], S.prog c⟩) (some ⟨c, [], S'.prog c⟩) :=
        .call hlive (by simp) (hL.prog c)
      refine ⟨_, held.update i 0, h.update hf hinv (fun _ hl => hl) hcall,
        Or.inr ⟨.call i c, .call ?_ hstart', rfl⟩⟩
      exact (h.tasks i).eq_none_iff.mp idle
  | @step i c tr label update next ht =>
      obtain ⟨-, R', held', hR, htracks⟩ := hL.atom h ht
      refine ⟨R', held', htracks, ?_⟩
      rcases hR with rfl | ⟨l, hR⟩
      · exact Or.inl ⟨rfl, rfl⟩
      · exact Or.inr ⟨_, hR, rfl⟩
  | @ret i c tr a ht =>
      obtain ⟨f, hheld, hf⟩ := exists_frame held i
      have hinv := h.inv
      obtain ⟨tr', q, hR, -, -, b, rfl, hzero, rfl⟩ := h.call ht
      rw [hheld, hzero] at hinv
      exact ⟨_, held.update i 0, h.update hf hinv (fun _ hl => hl) .idle,
        Or.inr ⟨_, .ret hR, rfl⟩⟩
  | @env s henv =>
      obtain ⟨hlive, hinv⟩ := hL.env _ _ _ _ _ henv h.inv h.live
      have htasks : ∀ i, L.Follows s (held i) (P.tasks i) (R.tasks i) := fun i =>
        (h.tasks i).congr fun t ht _ => hlive t.call ⟨i, t, ht, rfl⟩
      rcases hinv with hinv | ⟨t', hinv, henv'⟩
      · exact ⟨R, held, ⟨hinv, htasks⟩, Or.inl ⟨rfl, rfl⟩⟩
      · exact ⟨⟨t', R.tasks⟩, held, ⟨hinv, htasks⟩,
          Or.inr ⟨.env, .env (h.running_eq ▸ henv'), rfl⟩⟩

/-- **Every run is one of the other system**: there is a run of it with the same calls and
returns, in which the calls in flight are the same, and what they own adds up. -/
theorem run {s₀ : σ} {t₀ : σ'} (h₀ : L.inv 0 s₀ t₀) {es : List (Event ι τ ℓ α)}
    (run : S.Run s₀ es P) :
    ∃ es' R held, S'.Run t₀ es' R ∧ history id es' = history id es ∧ L.Tracks P R held := by
  induction run with
  | nil =>
      refine ⟨[], _, 0, .nil, rfl, ?_, fun i => .idle⟩
      rw [total_zero]
      exact h₀
  | @snoc es e P P' _ hs ih =>
      obtain ⟨es', R, held, run', hhist, htracks⟩ := ih
      obtain ⟨R', held', htracks', hR⟩ := hL.step htracks hs
      rcases hR with ⟨rfl, hseen⟩ | ⟨e', hs', hseen⟩
      · exact ⟨es', _, held', run', by rw [hhist, history_concat_of_none hseen], htracks'⟩
      · refine ⟨es' ++ [e'], R', held', run'.snoc hs', ?_, htracks'⟩
        cases he : e.seen id with
        | none => rw [history_concat_of_none he, history_concat_of_none (hseen.trans he), hhist]
        | some o => rw [history_concat_of_some he, history_concat_of_some (hseen.trans he), hhist]

/-- Every step of a call obeys its guarantee. -/
lemma guar {s₀ : σ} {t₀ : σ'} (h₀ : L.inv 0 s₀ t₀) {es : List (Event ι τ ℓ α)}
    (run : S.Run s₀ es P) {i : ι} {c : τ} {l : ℓ} (hs : S.Step P (.step i c l) P') :
    L.guar c P.shared l P'.shared := by
  obtain ⟨_, R, held, -, -, htracks⟩ := hL.run h₀ run
  cases hs with
  | step ht => exact (hL.atom htracks ht).1

end Holds

end Runs

end Ledger

end Concurrent
