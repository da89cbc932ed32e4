import QuantClassifier.Proofs.Wire.LawfulUpdate

/-!
# Updates one after the other

Of two updates on paths that leave each other neither sees what the other one writes, so both can
be made, and in either order they give the same bytes (`update_diamond`). Two updates on one path
are a single one, whose function does what the first function does and then what the second does
(`update_fuses`).
-/

namespace QuantClassifier.Wire

section Composing

variable {ε ε' : Type} {f : Bytes → Except ε Bytes} {g : Bytes → Except ε' Bytes}
  {number other : Nat} {stem path rest : List Nat} {msg old mid left right out : Bytes}

/-- Two updates on paths that leave each other can both be made, in either order. -/
theorem update_diamond (hne : number ≠ other)
    (hleft : update f (stem ++ number :: path) msg = .ok (some left)) (hlen : left.length < 2 ^ 64)
    (hright : update g (stem ++ other :: rest) msg = .ok (some right))
    (hlen' : right.length < 2 ^ 64) :
    ∃ out, update g (stem ++ other :: rest) left = .ok (some out) ∧
      update f (stem ++ number :: path) right = .ok (some out) := by
  obtain ⟨old, new, hold, hnew, hrep⟩ := update_eq_ok_some_iff.1 hleft
  obtain ⟨old', new', hold', hnew', hrep'⟩ := update_eq_ok_some_iff.1 hright
  obtain ⟨out, hout, hout'⟩ := replace?_diamond hne hrep hlen hrep' hlen'
  -- Either update finds in the other's result the payload that it found at first.
  rw [← select?_replace?_of_diverging hne.symm hrep' hlen'] at hold
  rw [← select?_replace?_of_diverging hne hrep hlen] at hold'
  exact ⟨out, update_eq_ok_some_iff.2 ⟨old', new', hold', hnew', hout⟩,
    update_eq_ok_some_iff.2 ⟨old, new, hold, hnew, hout'⟩⟩

/-- One of two letters is taken away and the other one is doubled, in either order. -/
example :
    let clear : Bytes → Except Unit Bytes := fun _ => .ok []
    let double : Bytes → Except Unit Bytes := fun old => .ok (old ++ old)
    let msg : Bytes := [0x0A, 0x01, 0x61, 0x12, 0x01, 0x62]
    let left : Bytes := [0x0A, 0x00, 0x12, 0x01, 0x62]
    let right : Bytes := [0x0A, 0x01, 0x61, 0x12, 0x02, 0x62, 0x62]
    let out : Bytes := [0x0A, 0x00, 0x12, 0x02, 0x62, 0x62]
    (update clear [1] msg).toOption = some (some left) ∧
      (update double [2] msg).toOption = some (some right) ∧
      (update double [2] left).toOption = some (some out) ∧
      (update clear [1] right).toOption = some (some out) := by
  decide +kernel

/-- A second update on a path starts from what the first one wrote, and writes to the message that
the first one started from. -/
theorem update_of_replace? (g : Bytes → Except ε Bytes) (h : replace? mid path msg = some out)
    (hlen : out.length < 2 ^ 64) :
    update g path out = ((g mid).mapError .leaf).map fun new => replace? new path msg := by
  rw [update_of_select? g (select?_replace? h hlen)]
  simp only [replace?_replace? h hlen]

end Composing

/-- Two updates on one path are one update with the second function behind the first. If the second
function fails on what the first one wrote, the update fails in the same way, and otherwise the
result is what a single write of the last payload makes of the first message, so that nothing is
left of the payload in between. No buffer holds `2 ^ 64` bytes, so that every length can be
written. -/
theorem update_fuses {ε : Type} (f g : Bytes → Except ε Bytes) {path : List Nat} {msg out : Bytes}
    (h : update f path msg = .ok (some out)) (hlen : out.length < 2 ^ 64) :
    update g path out = update (fun old => f old >>= g) path msg ∧
    ∃ old mid, select? path msg = some old ∧ f old = .ok mid ∧
      (∀ e, g mid = .error e → update g path out = .error (.leaf e)) ∧
      ∀ new, g mid = .ok new → ∃ last, replace? new path msg = some last ∧
        update g path out = .ok (some last) := by
  obtain ⟨old, mid, hold, hmid, hrep⟩ := update_eq_ok_some_iff.1 h
  have hsecond := update_of_replace? g hrep hlen
  refine ⟨?_, old, mid, hold, hmid, ?_, ?_⟩
  · rw [hsecond, update_of_select? _ hold, hmid]
    rfl
  · intro e he
    rw [hsecond, he]
    rfl
  · intro new hnew
    obtain ⟨last, hlast⟩ := exists_replace? hold new
    refine ⟨last, hlast, ?_⟩
    rw [hsecond, hnew, mapError_ok, Except.map, hlast]

/-- The second function refuses the letters that stand there at first, but not what the first
function writes in their place. -/
theorem update_fuses_nestedMessage :
    let spoil : Bytes → Except Unit Bytes := fun _ => .ok [0xFF]
    let clear : Bytes → Except Unit Bytes := fun old => if old = [0xFF] then .ok [] else .error ()
    update spoil [1, 7] nestedMessage = .ok (some rewrittenMessage) ∧
      rewrittenMessage.length < 2 ^ 64 ∧
      update clear [1, 7] nestedMessage = .error (.leaf ()) ∧
      update clear [1, 7] rewrittenMessage =
        update (fun old => spoil old >>= clear) [1, 7] nestedMessage ∧
      update clear [1, 7] rewrittenMessage =
        .ok (some [0x08, 0x05, 0x0A, 0x04, 0x38, 0x01, 0x3A, 0x00, 0x0A, 0x00]) := by
  intro spoil clear
  have hspoil : update spoil [1, 7] nestedMessage = .ok (some rewrittenMessage) :=
    toOption_eq_some_iff.1 (by decide +kernel)
  have hclear : update clear [1, 7] rewrittenMessage =
      .ok (some [0x08, 0x05, 0x0A, 0x04, 0x38, 0x01, 0x3A, 0x00, 0x0A, 0x00]) :=
    toOption_eq_some_iff.1 (by decide +kernel)
  have hold : select? [1, 7] nestedMessage = some [0x61, 0x62] := by decide +kernel
  have hrefused : update clear [1, 7] nestedMessage = .error (.leaf ()) := by
    rw [update_of_select? clear hold]
    rfl
  exact ⟨hspoil, by decide, hrefused, (update_fuses spoil clear hspoil (by decide)).1, hclear⟩

end QuantClassifier.Wire
