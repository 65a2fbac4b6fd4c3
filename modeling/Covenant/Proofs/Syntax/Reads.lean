import Covenant.Proofs.Syntax.Layout
import Covenant.Proofs.Syntax.Spelling
/-!
What readers make of a text.

* `Lexeme.Ahead`: the current token and those after it are given ones;
* `Reader.Reads`: where the current token and the text after it are given ones, a reader gives a construct, up to
  lines, and leaves another token and text, when there is fuel enough; pieces are put together by `Reads.bind` and
  the like.
-/

namespace Covenant

/-- What is read at a place, wherever it is: the current terminal, its text and what follows. -/
def Reading.view (r : Reading) : Terminal × List Char × List Char := (r.token.terminal, r.token.text, r.place.rest)

namespace Lexeme

/-- The first of some tokens is the current one, and the others stand in the text after it. -/
def Ahead : List (Terminal × List Char) → Terminal × List Char × List Char → List Char → Prop
  | [], _, _ => False
  | t :: ts, v, rest => v.1 = t.1 ∧ v.2.1 = t.2 ∧ Stand ts v.2.2 rest

variable {t : Terminal × List Char} {ts : List (Terminal × List Char)} {s rest : List Char}
  {v : Terminal × List Char × List Char}

theorem exists_ahead (following : List Terminal) (is : match? following t.2 = some (t.1, t.2.length))
    (stand : Stand (t :: ts) s rest) : ∃ v, lexed following s = some v ∧ Ahead (t :: ts) v rest := by
  obtain ⟨u, here, after⟩ := stand
  exact ⟨(t.1, t.2, u), here following is, rfl, rfl, after⟩

theorem Ahead.split {us : List (Terminal × List Char)} (ahead : Ahead (t :: ts ++ us) v rest) :
    ∃ m, Ahead (t :: ts) v m ∧ Stand us m rest := by
  obtain ⟨terminal, text, stand⟩ := ahead
  obtain ⟨m, first, second⟩ := stand_append.mp stand
  exact ⟨m, ⟨terminal, text, first⟩, second⟩

/-- The token after the current one is found where it is expected. -/
theorem Ahead.next {t' : Terminal × List Char} (ahead : Ahead (t :: t' :: ts) v rest) (following : List Terminal)
    (is : match? following t'.2 = some (t'.1, t'.2.length)) :
    ∃ v₁, lexed following v.2.2 = some v₁ ∧ Ahead (t' :: ts) v₁ rest :=
  exists_ahead following is ahead.2.2

end Lexeme

namespace Reader

open Lexeme

variable {α β γ δ : Type}

/-- Where the current token and the text after it are given ones, a reader gives a construct and leaves others,
when its fuel suffices. -/
def Reads (bare : α → γ) (x : Nat → Reader α) (v : Terminal × List Char × List Char) (c : γ)
    (v' : Terminal × List Char × List Char) : Prop :=
  ∀ r : Reading, r.view = v → ∃ a r' least, bare a = c ∧ r'.view = v' ∧
    ∀ fuel, least ≤ fuel → (x fuel).run r = .ok (a, r')

namespace Reads

variable {bare : α → γ} {bare' : β → δ} {v v₁ v' : Terminal × List Char × List Char} {c : γ} {d : δ}

theorem pure {a : α} (h : bare a = c) : Reads bare (fun _ => Pure.pure a) v c v :=
  fun r here => ⟨a, r, 0, h, here, fun _ _ => rfl⟩

theorem bind {x : Nat → Reader α} {f : Nat → α → Reader β} (hx : Reads bare x v c v₁)
    (hf : ∀ a, bare a = c → Reads bare' (fun fuel => f fuel a) v₁ d v') :
    Reads bare' (fun fuel => x fuel >>= f fuel) v d v' := by
  intro r here
  obtain ⟨a, r₁, least, same, there, runs⟩ := hx r here
  obtain ⟨b, r', least', same', there', runs'⟩ := hf a same r₁ there
  refine ⟨b, r', max least least', same', there', fun fuel enough => ?_⟩
  rw [StateT.run_bind, runs fuel (by omega)]
  exact runs' fuel (by omega)

/-- A reader whose fuel goes down by one. -/
theorem succ {x y : Nat → Reader α} (hx : ∀ fuel, x (fuel + 1) = y fuel) (h : Reads bare y v c v') :
    Reads bare x v c v' := by
  intro r here
  obtain ⟨a, r', least, same, there, runs⟩ := h r here
  refine ⟨a, r', least + 1, same, there, fun fuel enough => ?_⟩
  obtain ⟨fuel, rfl⟩ : ∃ m, fuel = m + 1 := ⟨fuel - 1, by omega⟩
  rw [hx]
  exact runs fuel (by omega)

theorem yes {p : Prop} [Decidable p] {x y : Nat → Reader α} (h : p) (hx : Reads bare x v c v') :
    Reads bare (fun fuel => if p then x fuel else y fuel) v c v' := by
  simp only [if_pos h]
  exact hx

theorem no {p : Prop} [Decidable p] {x y : Nat → Reader α} (h : ¬ p) (hy : Reads bare y v c v') :
    Reads bare (fun fuel => if p then x fuel else y fuel) v c v' := by
  simp only [if_neg h]
  exact hy

theorem current {t : Terminal} {f : Nat → Terminal → Reader α} (here : v.1 = t)
    (h : Reads bare (fun fuel => f fuel t) v c v') : Reads bare (fun fuel => Reader.current >>= f fuel) v c v' := by
  subst here
  rintro r rfl
  exact h r rfl

theorem line {f : Nat → Nat → Reader α} (h : ∀ line, Reads bare (fun fuel => f fuel line) v c v') :
    Reads bare (fun fuel => currentLine >>= f fuel) v c v' := fun r here => h r.token.line r here

/-- The current token is taken, and the next one found among those that may follow. -/
theorem take {following : List Terminal} (next : lexed following v.2.2 = some v₁) :
    Reads Token.text (fun _ => Reader.take following) v v.2.1 v₁ := by
  rintro r rfl
  obtain ⟨terminal, text, rest⟩ := v₁
  obtain ⟨t, place, found, rfl, rfl, rfl⟩ := Token.exists_next _ next r.token
  exact ⟨r.token, ⟨t, place⟩, 0, rfl, rfl, fun _ _ => run_take_eq_ok.mpr ⟨rfl, found⟩⟩

theorem taking {following : List Terminal} {f : Nat → Token → Reader α} (next : lexed following v.2.2 = some v₁)
    (h : ∀ t : Token, t.text = v.2.1 → Reads bare (fun fuel => f fuel t) v₁ c v') :
    Reads bare (fun fuel => Reader.take following >>= f fuel) v c v' := (take next).bind h

/-- The current token is a given one and is taken. -/
theorem expecting {t : Terminal} {following : List Terminal} {f : Nat → Token → Reader α}
    (here : v.1 = t) (next : lexed following v.2.2 = some v₁)
    (h : ∀ taken : Token, taken.text = v.2.1 → Reads bare (fun fuel => f fuel taken) v₁ c v') :
    Reads bare (fun fuel => expect t following >>= f fuel) v c v' := by
  have taken : Reads Token.text (fun _ => expect t following) v v.2.1 v₁ :=
    .current here (.yes rfl (take next))
  exact taken.bind h

/-- The current token is a given name and is taken. -/
theorem naming {name : String} {following : List Terminal} {f : Nat → String → Reader α} (here : v.1 = .name)
    (text : v.2.1 = name.toList) (next : lexed following v.2.2 = some v₁)
    (h : Reads bare (fun fuel => f fuel name) v₁ c v') :
    Reads bare (fun fuel => expectName following >>= f fuel) v c v' := by
  have named : Reads id (fun _ => expectName following) v name v₁ := by
    refine .expecting here next fun t same => .pure ?_
    rw [same, text, String.ofList_toList]
    rfl
  refine named.bind fun other same => ?_
  obtain rfl : other = name := same
  exact h

end Reads

end Reader

end Covenant
