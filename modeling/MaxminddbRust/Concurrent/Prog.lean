import Mathlib.Data.List.Basic
import Mathlib.Tactic.Common

/-!
Programs of atomic steps over a shared state, and the rely-guarantee judgement on them.

* `Prog`: a program is a finite tree of atomic steps. A step reads the shared state, emits a
  label, updates the state and chooses the rest of the program from what it read. Between two
  steps anything else may happen to the shared state.
* `Prog.bind`, `Prog.andThen`: sequencing, plain and with early exit on an error; `Prog.zoom`: a
  program on a part of the state, as a program on the whole.
* `Prog.exec`: the run of a program with nobody else stepping.
* `Prog.Sat`: the judgement. A program satisfies `(I, G, Q)` if each of its steps, taken from a
  state satisfying `I`, keeps `I` and obeys `G`, and if it can only return values allowed by `Q`,
  whatever the others did in between as long as they kept `I`.
* `Sat.exec`, `Sat.exec_step`: a judgement proved once for every interleaving also describes the
  run alone.
-/

namespace Concurrent

/-- A program over the shared state `σ`, emitting labels in `ℓ` and returning a value in `α`. -/
inductive Prog (ℓ σ α : Type) : Type where
  | ret (a : α) : Prog ℓ σ α
  | atom (label : σ → ℓ) (update : σ → σ) (next : σ → Prog ℓ σ α) : Prog ℓ σ α

namespace Prog

variable {ℓ σ α β ε : Type}

/-- Run `p`, then the program `f` chooses from its value. -/
def bind : Prog ℓ σ α → (α → Prog ℓ σ β) → Prog ℓ σ β
  | ret a, f => f a
  | atom label update next, f => atom label update fun s => bind (next s) f

/-- Sequencing with early exit: an error of the first program is the error of the whole. -/
def andThen (p : Prog ℓ σ (Except ε α)) (f : α → Prog ℓ σ (Except ε β)) :
    Prog ℓ σ (Except ε β) :=
  p.bind fun
    | .error e => ret (.error e)
    | .ok a => f a

/-- Apply a function to the value a program returns. -/
def map (f : α → β) (p : Prog ℓ σ α) : Prog ℓ σ β := p.bind fun a => ret (f a)

/-- A program on a part of the state, as a program on the whole. -/
def zoom {ℓ' σ' : Type} (get : σ → σ') (set : σ' → σ → σ) (emb : ℓ' → ℓ) :
    Prog ℓ' σ' α → Prog ℓ σ α
  | ret a => ret a
  | atom label update next =>
      atom (fun s => emb (label (get s))) (fun s => set (update (get s)) s)
        fun s => zoom get set emb (next (get s))

/-- The run of a program with nobody else stepping: the labels it emits, the state it leaves
and the value it returns. -/
def exec : Prog ℓ σ α → σ → List ℓ × σ × α
  | ret a, s => ([], s, a)
  | atom label update next, s =>
      let r := exec (next s) (update s)
      (label s :: r.1, r.2)

/-- The labels of the run alone. -/
def labels (p : Prog ℓ σ α) (s : σ) : List ℓ := (p.exec s).1

/-- The state the run alone leaves. -/
def final (p : Prog ℓ σ α) (s : σ) : σ := (p.exec s).2.1

/-- The value the run alone returns. -/
def value (p : Prog ℓ σ α) (s : σ) : α := (p.exec s).2.2

@[simp] lemma labels_ret (a : α) (s : σ) : (ret a : Prog ℓ σ α).labels s = [] := rfl

@[simp] lemma labels_atom (label : σ → ℓ) (update : σ → σ) (next : σ → Prog ℓ σ α) (s : σ) :
    (atom label update next).labels s = label s :: (next s).labels (update s) := rfl

@[simp] lemma final_atom (label : σ → ℓ) (update : σ → σ) (next : σ → Prog ℓ σ α) (s : σ) :
    (atom label update next).final s = (next s).final (update s) := rfl

@[simp] lemma value_atom (label : σ → ℓ) (update : σ → σ) (next : σ → Prog ℓ σ α) (s : σ) :
    (atom label update next).value s = (next s).value (update s) := rfl

@[simp] lemma andThen_ret_error (e : ε) (f : α → Prog ℓ σ (Except ε β)) :
    (ret (.error e) : Prog ℓ σ (Except ε α)).andThen f = ret (.error e) := rfl

@[simp] lemma andThen_ret_ok (a : α) (f : α → Prog ℓ σ (Except ε β)) :
    (ret (.ok a) : Prog ℓ σ (Except ε α)).andThen f = f a := rfl

@[simp] lemma andThen_atom (label : σ → ℓ) (update : σ → σ)
    (next : σ → Prog ℓ σ (Except ε α)) (f : α → Prog ℓ σ (Except ε β)) :
    (atom label update next).andThen f = atom label update fun s => (next s).andThen f := rfl

/-- Going on by returning is stopping. -/
lemma bind_ret (p : Prog ℓ σ α) : p.bind ret = p := by
  induction p with
  | ret a => rfl
  | atom label update next ih => rw [bind, funext ih]

/-- The run of two programs in sequence ends as that of the second from where the first ends. -/
lemma value_bind (f : α → Prog ℓ σ β) :
    ∀ (p : Prog ℓ σ α) (s : σ), (p.bind f).value s = (f (p.value s)).value (p.final s)
  | ret _, _ => rfl
  | atom _ update next, s => value_bind f (next s) (update s)

lemma final_bind (f : α → Prog ℓ σ β) :
    ∀ (p : Prog ℓ σ α) (s : σ), (p.bind f).final s = (f (p.value s)).final (p.final s)
  | ret _, _ => rfl
  | atom _ update next, s => final_bind f (next s) (update s)

lemma value_map (f : α → β) (p : Prog ℓ σ α) (s : σ) : (p.map f).value s = f (p.value s) :=
  value_bind _ p s

/-- The run of a sequence whose first program fails ends there. -/
lemma ends_andThen_of_error {p : Prog ℓ σ (Except ε α)} {f : α → Prog ℓ σ (Except ε β)} {s : σ}
    {e : ε} (h : p.value s = .error e) :
    (p.andThen f).value s = .error e ∧ (p.andThen f).final s = p.final s := by
  rw [andThen, value_bind, final_bind, h]
  exact ⟨rfl, rfl⟩

/-- The run of a sequence whose first program succeeds ends as the second does from there. -/
lemma ends_andThen_of_ok {p : Prog ℓ σ (Except ε α)} {f : α → Prog ℓ σ (Except ε β)} {s : σ} {a : α}
    (h : p.value s = .ok a) :
    (p.andThen f).value s = (f a).value (p.final s) ∧
      (p.andThen f).final s = (f a).final (p.final s) := by
  rw [andThen, value_bind, final_bind, h]
  exact ⟨rfl, rfl⟩

/-- The run of a sequence whose first program succeeds. -/
lemma exec_andThen_of_ok (f : α → Prog ℓ σ (Except ε β)) {a : α} :
    ∀ {p : Prog ℓ σ (Except ε α)} {s : σ}, p.value s = .ok a →
      (p.andThen f).exec s
        = (p.labels s ++ ((f a).exec (p.final s)).1, ((f a).exec (p.final s)).2)
  | ret r, s, h => by
      obtain rfl : r = .ok a := h
      rfl
  | atom label update next, s, h => by
      have ih := exec_andThen_of_ok f (p := next s) (s := update s) h
      rw [andThen_atom, exec, ih]
      rfl

/-- Sequences with the same first program run alike iff their rests do. -/
lemma exec_andThen_eq_iff {p : Prog ℓ σ (Except ε α)} {f g : α → Prog ℓ σ (Except ε β)} {a : α}
    {s : σ} (h : p.value s = .ok a) :
    (p.andThen f).exec s = (p.andThen g).exec s ↔
      (f a).exec (p.final s) = (g a).exec (p.final s) := by
  rw [exec_andThen_of_ok f h, exec_andThen_of_ok g h, Prod.mk.injEq, List.append_cancel_left_eq,
    ← Prod.ext_iff]

/-- A program returns after finitely many steps of its own, whatever the state it finds at each
of them: `n` bounds their number. -/
def Within : ℕ → Prog ℓ σ α → Prop
  | _, ret _ => True
  | 0, atom _ _ _ => False
  | n + 1, atom _ _ next => ∀ s, Within n (next s)

/-! ### The rely-guarantee judgement -/

/-- **The judgement**: every step of the program taken from a state satisfying `I` keeps `I` and
obeys `G`, and what it returns satisfies `Q` together with the labels it emits. -/
def Sat (I : σ → Prop) (G : σ → ℓ → σ → Prop) : (List ℓ → α → Prop) → Prog ℓ σ α → Prop
  | Q, ret a => Q [] a
  | Q, atom label update next =>
      ∀ s, I s → I (update s) ∧ G s (label s) (update s) ∧
        Sat I G (fun tr a => Q (label s :: tr) a) (next s)

namespace Sat

variable {I : σ → Prop} {G : σ → ℓ → σ → Prop} {Q : List ℓ → α → Prop} {R : List ℓ → β → Prop}

/-- Weakening the guarantee and the postcondition. -/
lemma mono {G' : σ → ℓ → σ → Prop} (hG : ∀ s, I s → ∀ l s', G s l s' → G' s l s')
    {p : Prog ℓ σ α} :
    ∀ {Q Q' : List ℓ → α → Prop}, (∀ tr a, Q tr a → Q' tr a) → Sat I G Q p → Sat I G' Q' p := by
  induction p with
  | ret a => exact fun hQ h => hQ _ a h
  | atom label update next ih =>
      intro Q Q' hQ h s hs
      obtain ⟨hI, hg, hn⟩ := h s hs
      exact ⟨hI, hG s hs _ _ hg, ih s (fun tr a => hQ _ a) hn⟩

/-- The rule of consequence. -/
lemma imp {Q' : List ℓ → α → Prop} {p : Prog ℓ σ α} (h : Sat I G Q p)
    (hQ : ∀ tr a, Q tr a → Q' tr a) : Sat I G Q' p :=
  mono (fun _ _ _ _ hg => hg) hQ h

/-- The rule of sequencing: the labels of the second program come after those of the first. -/
lemma bind {p : Prog ℓ σ α} {f : α → Prog ℓ σ β} :
    ∀ {Q : List ℓ → α → Prop} {R : List ℓ → β → Prop}, Sat I G Q p →
      (∀ tr a, Q tr a → Sat I G (fun tr' b => R (tr ++ tr') b) (f a)) →
        Sat I G R (p.bind f) := by
  induction p with
  | ret a => exact fun h hf => hf [] a h
  | atom label update next ih =>
      intro Q R h hf s hs
      obtain ⟨hI, hg, hn⟩ := h s hs
      exact ⟨hI, hg, ih s hn fun tr a hQ => hf (label s :: tr) a hQ⟩

/-- The rule of sequencing with early exit. -/
lemma andThen {Q : List ℓ → Except ε α → Prop} {R : List ℓ → Except ε β → Prop}
    {p : Prog ℓ σ (Except ε α)} {f : α → Prog ℓ σ (Except ε β)} (hp : Sat I G Q p)
    (herr : ∀ tr e, Q tr (.error e) → R tr (.error e))
    (hok : ∀ tr a, Q tr (.ok a) → Sat I G (fun tr' b => R (tr ++ tr') b) (f a)) :
    Sat I G R (p.andThen f) := by
  refine bind hp fun tr r hr => ?_
  cases r with
  | error e =>
      show R (tr ++ []) (.error e)
      rw [List.append_nil]
      exact herr tr e hr
  | ok a => exact hok tr a hr

/-- The rule of mapping. -/
lemma map {f : α → β} {p : Prog ℓ σ α} (hp : Sat I G Q p) (hf : ∀ tr a, Q tr a → R tr (f a)) :
    Sat I G R (p.map f) := by
  refine bind hp fun tr a h => ?_
  show R (tr ++ []) (f a)
  rw [List.append_nil]
  exact hf tr a h

/-- The rule of zooming: what a program does to a part of the state, it does to that part of
the whole, with its labels embedded. -/
lemma zoom {ℓ' σ' : Type} {get : σ → σ'} {set : σ' → σ → σ} {emb : ℓ' → ℓ}
    {I' : σ' → Prop} {G' : σ' → ℓ' → σ' → Prop} (hget : ∀ s, I s → I' (get s))
    (hset : ∀ s l t, I s → I' t → G' (get s) l t → I (set t s) ∧ G s (emb l) (set t s))
    {p : Prog ℓ' σ' α} :
    ∀ {Q' : List ℓ' → α → Prop} {Q : List ℓ → α → Prop}, Sat I' G' Q' p →
      (∀ tr a, Q' tr a → Q (tr.map emb) a) → Sat I G Q (p.zoom get set emb) := by
  induction p with
  | ret a => exact fun h hQ => hQ [] a h
  | atom label update next ih =>
      intro Q' Q h hQ s hs
      obtain ⟨hI, hg, hn⟩ := h (get s) (hget s hs)
      obtain ⟨hI', hg'⟩ := hset s _ _ hs hI hg
      exact ⟨hI', hg', ih (get s) hn fun tr a => hQ (label (get s) :: tr) a⟩

/-- The judgement describes the run alone: from a state satisfying `I` the program leaves one
satisfying `I` and returns a value allowed by `Q`. -/
lemma exec {p : Prog ℓ σ α} :
    ∀ {Q : List ℓ → α → Prop} {s : σ}, Sat I G Q p → I s →
      I (p.final s) ∧ Q (p.labels s) (p.value s) := by
  induction p with
  | ret a => exact fun h hs => ⟨hs, h⟩
  | atom label update next ih =>
      intro Q s h hs
      obtain ⟨hI, -, hn⟩ := h s hs
      exact ih s hn hI

/-- What the postcondition says of all labels, every step may guarantee of its own. -/
lemma labels {K : ℓ → Prop} {p : Prog ℓ σ α} :
    ∀ {Q : List ℓ → α → Prop}, Sat I G Q p → (∀ tr a, Q tr a → ∀ l ∈ tr, K l) →
      Sat I (fun s l s' => G s l s' ∧ K l) Q p := by
  induction p with
  | ret a => exact fun h _ => h
  | atom label update next ih =>
      intro Q h hK s hs
      obtain ⟨hI, hg, hn⟩ := h s hs
      -- The rest of the program can be run to its end, where the postcondition holds.
      have hend := hK _ _ (exec hn hI).2
      exact ⟨hI, ⟨hg, hend _ List.mem_cons_self⟩,
        ih s hn fun tr a hQ l hl => hK _ a hQ l (List.mem_cons_of_mem _ hl)⟩

/-- Every label of the run alone is that of a step that obeys `G`. -/
lemma exec_step {p : Prog ℓ σ α} :
    ∀ {Q : List ℓ → α → Prop} {s : σ}, Sat I G Q p → I s →
      ∀ l ∈ p.labels s, ∃ s₁ s₂, I s₁ ∧ G s₁ l s₂ := by
  induction p with
  | ret a => exact fun _ _ l hl => nomatch hl
  | atom label update next ih =>
      intro Q s h hs l hl
      obtain ⟨hI, hg, hn⟩ := h s hs
      rcases List.mem_cons.mp hl with rfl | hl
      · exact ⟨s, _, hs, hg⟩
      · exact ih s hn hI l hl

end Sat

end Prog

end Concurrent
