import Ckman.PivGeneration
import Ckman.ReferenceCard

/-!
# What a generation reports

The callback is the only host record of keys that the card already holds. A run
of the driver is a sequence of rounds, each one command and at most one callback;
that every key is reported once, in order and in time is an induction over the
rounds.
-/
namespace Piv

open Host Interaction

variable {E C : Type} {total : Nat} {earlier items : List BatchItem}

def publicKeys (items : List BatchItem) : List PublicKey := items.filterMap BatchItem.key

/-- A finished batch: the management authentication, then the generated keys. -/
def batchItems (keys : List PublicKey) : List BatchItem := .authenticated :: keys.map .publicKey

/-- A prefix of the items of a finished batch of `total` generations. -/
def PartOfBatch (total : Nat) (items : List BatchItem) : Prop :=
  ∃ keys : List PublicKey, keys.length = total ∧ items <+: batchItems keys

/-- All items of a finished batch of `total` generations. -/
def WholeBatch (total : Nat) (items : List BatchItem) : Prop :=
  ∃ keys : List PublicKey, keys.length = total ∧ items = batchItems keys

structure Grows (total : Nat) (earlier items : List BatchItem) : Prop where
  part : PartOfBatch total items
  kept : earlier <+: items
  round : items.length ≤ earlier.length + 1

/-- What the operation lists; an operation that lists nothing changes nothing. -/
def BatchOperation.listed (earlier : List BatchItem) (operation : BatchOperation) : List BatchItem :=
  operation.progress.getD earlier

/-- What is assumed of an operation that has listed the `earlier` items: each
`advance` lists at most one item more, and a result is the whole batch. -/
def BatchOperation.Conforms (total : Nat) : List BatchItem → BatchOperation → Prop
  | _, .failed _ => True
  | earlier, .complete _ result => ∀ items, result = .ok items →
    WholeBatch total items ∧ earlier <+: items
  | earlier, .exchange _ _ advance => ∀ response,
    Grows total earlier ((advance response).listed earlier) ∧
      (advance response).Conforms total ((advance response).listed earlier)

@[simp] theorem publicKeys_append (items more : List BatchItem) :
    publicKeys (items ++ more) = publicKeys items ++ publicKeys more :=
  List.filterMap_append

@[simp] theorem publicKeys_map (keys : List PublicKey) :
    publicKeys (keys.map .publicKey) = keys := by
  rw [publicKeys, List.filterMap_map]
  exact List.filterMap_some

@[simp] theorem publicKeys_batchItems (keys : List PublicKey) :
    publicKeys (batchItems keys) = keys := publicKeys_map keys

/-- A part of a batch is empty, or the authentication and some first keys. -/
theorem PartOfBatch.eq_nil_or (h : PartOfBatch total items) :
    items = [] ∨ ∃ keys, items = batchItems keys := by
  obtain ⟨keys, -, hfront⟩ := h
  cases items with
  | nil => exact .inl rfl
  | cons item rest =>
    obtain ⟨rfl, hrest⟩ := List.cons_prefix_cons.mp hfront
    rw [List.prefix_iff_eq_take] at hrest
    exact .inr ⟨keys.take rest.length, by rw [hrest, batchItems, List.map_take, List.length_take]; simp⟩

/-- A round lists no further key, or it lists exactly one. -/
theorem Grows.next (h : Grows total earlier items) :
    (items.drop ((publicKeys earlier).length + 1) = [] ∧ publicKeys items = publicKeys earlier) ∨
      ∃ key, items.drop ((publicKeys earlier).length + 1) = [.publicKey key] ∧
        publicKeys items = publicKeys earlier ++ [key] := by
  obtain ⟨more, rfl⟩ := h.kept
  have hmore : more.length ≤ 1 := by
    have := h.round
    rw [List.length_append] at this
    omega
  rcases h.part.eq_nil_or with hnil | ⟨keys, hkeys⟩
  · obtain ⟨rfl, rfl⟩ := List.append_eq_nil_iff.mp hnil
    exact .inl ⟨rfl, rfl⟩
  cases earlier with
  | nil =>
    obtain rfl : keys = [] := by
      rw [List.nil_append] at hkeys
      simpa [hkeys, batchItems] using hmore
    rw [List.nil_append] at hkeys
    exact .inl ⟨by rw [hkeys]; rfl, by rw [hkeys]; rfl⟩
  | cons item rest =>
    obtain ⟨rfl, hrest⟩ := List.cons.inj hkeys
    obtain ⟨front, back, rfl, rfl, rfl⟩ := List.map_eq_append_iff.mp hrest.symm
    have hfront : publicKeys (.authenticated :: front.map .publicKey) = front :=
      publicKeys_batchItems front
    have hback : publicKeys (.authenticated :: front.map .publicKey ++ back.map .publicKey) =
        front ++ back := by
      rw [publicKeys_append, publicKeys_map, hfront]
    have hdrop : (BatchItem.authenticated :: front.map BatchItem.publicKey ++
        back.map BatchItem.publicKey).drop (front.length + 1) = back.map BatchItem.publicKey := by
      rw [List.cons_append, List.drop_succ_cons, List.drop_left' (List.length_map ..)]
    rw [hfront, hback, hdrop]
    rcases back with _ | ⟨key, _ | ⟨second, others⟩⟩
    · exact .inl ⟨rfl, List.append_nil _⟩
    · exact .inr ⟨key, rfl, rfl⟩
    · simp at hmore

/-- A run of the driver loop, round by round: a command and its reply, then the
callback when the reply completed a key. -/
inductive Rounds : List BatchItem → BatchOperation → List (Event (GenerateAnswer E C)) →
    Option (Except (GenerateKeysError E C) (List BatchItem)) → Prop where
  | failed {earlier : List BatchItem} (error : Error) :
      Rounds earlier (.failed error) [] (some (.error (protocolError error)))
  | complete {earlier : List BatchItem} (progress : Option (List BatchItem))
      (result : Except Error (List BatchItem)) :
      Rounds earlier (.complete progress result) [] (some (result.mapError protocolError))
  | refused {earlier : List BatchItem} (progress : Option (List BatchItem)) (error : Error)
      (advance : Bytes → BatchOperation) :
      Rounds earlier (.exchange progress (.error error) advance) []
        (some (.error (protocolError error)))
  | stopped {earlier : List BatchItem} (progress : Option (List BatchItem)) (command : Bytes)
      (advance : Bytes → BatchOperation) :
      Rounds earlier (.exchange progress (.ok command) advance) [] none
  | lost {earlier : List BatchItem} (progress : Option (List BatchItem)) (command : Bytes)
      (advance : Bytes → BatchOperation) (e : E) :
      Rounds earlier (.exchange progress (.ok command) advance) [⟨.exchange command, .error e⟩]
        (some (.error (.operation (.drive (.transport e)))))
  | silent {earlier : List BatchItem} (progress : Option (List BatchItem)) (command : Bytes)
      (advance : Bytes → BatchOperation) {response : Bytes}
      {tr : List (Event (GenerateAnswer E C))}
      {o : Option (Except (GenerateKeysError E C) (List BatchItem))} :
      publicKeys ((advance response).listed earlier) = publicKeys earlier →
      Rounds ((advance response).listed earlier) (advance response) tr o →
      Rounds earlier (.exchange progress (.ok command) advance)
        (⟨.exchange command, .ok response⟩ :: tr) o
  | unreported {earlier : List BatchItem} (progress : Option (List BatchItem)) (command : Bytes)
      (advance : Bytes → BatchOperation) {response : Bytes} {key : PublicKey} :
      publicKeys ((advance response).listed earlier) = publicKeys earlier ++ [key] →
      Rounds earlier (.exchange progress (.ok command) advance)
        [⟨.exchange command, .ok response⟩] none
  | declined {earlier : List BatchItem} (progress : Option (List BatchItem)) (command : Bytes)
      (advance : Bytes → BatchOperation) {response : Bytes} {key : PublicKey} (e : C) :
      publicKeys ((advance response).listed earlier) = publicKeys earlier ++ [key] →
      Rounds earlier (.exchange progress (.ok command) advance)
        [⟨.exchange command, .ok response⟩,
          ⟨.progress ((publicKeys earlier).length + 1) key, .error e⟩]
        (some (.error (.callback e)))
  | reported {earlier : List BatchItem} (progress : Option (List BatchItem)) (command : Bytes)
      (advance : Bytes → BatchOperation) {response : Bytes} {key : PublicKey}
      {tr : List (Event (GenerateAnswer E C))}
      {o : Option (Except (GenerateKeysError E C) (List BatchItem))} :
      publicKeys ((advance response).listed earlier) = publicKeys earlier ++ [key] →
      Rounds ((advance response).listed earlier) (advance response) tr o →
      Rounds earlier (.exchange progress (.ok command) advance)
        (⟨.exchange command, .ok response⟩ ::
          ⟨.progress ((publicKeys earlier).length + 1) key, .ok ()⟩ :: tr) o

/-- What one look at the progress list does. -/
theorem traces_reportProgress {operation : BatchOperation} {tr : List (Event (GenerateAnswer E C))}
    {o : Option (Except (GenerateKeysError E C) Nat)}
    (hgrows : Grows total earlier (operation.listed earlier))
    (h : Fallible.Traces (reportProgress (publicKeys earlier).length operation.progress) tr o) :
    (publicKeys (operation.listed earlier) = publicKeys earlier ∧ tr = [] ∧
        o = some (.ok (publicKeys earlier).length)) ∨
      ∃ key, publicKeys (operation.listed earlier) = publicKeys earlier ++ [key] ∧
        ((tr = [] ∧ o = none) ∨
          ∃ r, tr = [⟨.progress ((publicKeys earlier).length + 1) key, r⟩] ∧
            o = some ((r.mapError .callback).map fun _ => (publicKeys earlier).length + 1)) := by
  cases hprogress : operation.progress with
  | none =>
    rw [hprogress] at h
    obtain ⟨rfl, rfl⟩ := Fallible.traces_pure_iff.mp h
    exact .inl ⟨by rw [BatchOperation.listed, hprogress, Option.getD_none], rfl, rfl⟩
  | some items =>
    have hitems : operation.listed earlier = items := by
      rw [BatchOperation.listed, hprogress, Option.getD_some]
    rw [hprogress, reportProgress, ← hitems] at h
    rcases hgrows.next with ⟨hdrop, hkeys⟩ | ⟨key, hdrop, hkeys⟩
    · rw [hdrop, reportItems] at h
      obtain ⟨rfl, rfl⟩ := Fallible.traces_pure_iff.mp h
      exact .inl ⟨hkeys, rfl, rfl⟩
    · rw [hdrop, reportItems] at h
      refine .inr ⟨key, hkeys, ?_⟩
      rcases Fallible.traces_bind_iff.mp h with
        ⟨rfl, hask⟩ | ⟨e, rfl, hask⟩ | ⟨⟨⟩, first, rest, rfl, hask, hrest⟩
      · rcases Fallible.traces_request_iff.mp hask with ⟨rfl, -⟩ | ⟨r, -, ho⟩
        · exact .inl ⟨rfl, rfl⟩
        · cases ho
      · rcases Fallible.traces_request_iff.mp hask with ⟨-, ho⟩ | ⟨r, rfl, ho⟩
        · cases ho
        · refine .inr ⟨r, rfl, ?_⟩
          rw [← Option.some.inj ho]
          rfl
      · obtain ⟨rfl, rfl⟩ := Fallible.traces_pure_iff.mp hrest
        rcases Fallible.traces_request_iff.mp hask with ⟨-, ho⟩ | ⟨r, rfl, ho⟩
        · cases ho
        · refine .inr ⟨r, rfl, ?_⟩
          rw [← Option.some.inj ho]
          rfl

/-- A round after its reply: the look at the list, then the rest of the loop. -/
theorem rounds_after {progress : Option (List BatchItem)} {command response : Bytes}
    {advance : Bytes → BatchOperation} {tr : List (Event (GenerateAnswer E C))}
    {o : Option (Except (GenerateKeysError E C) (List BatchItem))}
    (hgrows : Grows total earlier ((advance response).listed earlier))
    (hrounds : ∀ {tr : List (Event (GenerateAnswer E C))}
      {o : Option (Except (GenerateKeysError E C) (List BatchItem))},
      Fallible.Traces (driveBatch (publicKeys ((advance response).listed earlier)).length
        (advance response)) tr o → Rounds ((advance response).listed earlier) (advance response) tr o)
    (h : Fallible.Traces (reportProgress (publicKeys earlier).length (advance response).progress >>=
      fun reported => driveBatch reported (advance response)) tr o) :
    Rounds earlier (.exchange progress (.ok command) advance)
      (⟨.exchange command, .ok response⟩ :: tr) o := by
  rcases Fallible.traces_bind_iff.mp h with
    ⟨rfl, hlook⟩ | ⟨e, rfl, hlook⟩ | ⟨reported, first, rest, rfl, hlook, hrest⟩
  · rcases traces_reportProgress hgrows hlook with ⟨-, -, ho⟩ | ⟨key, hkeys, ⟨rfl, -⟩ | ⟨r, -, ho⟩⟩
    · cases ho
    · exact .unreported progress command advance hkeys
    · cases ho
  · rcases traces_reportProgress hgrows hlook with
      ⟨-, -, ho⟩ | ⟨key, hkeys, ⟨-, ho⟩ | ⟨r, rfl, ho⟩⟩
    · cases ho
    · cases ho
    · cases r with
      | error e' =>
        cases ho
        exact .declined progress command advance e' hkeys
      | ok u => cases ho
  · rcases traces_reportProgress hgrows hlook with
      ⟨hkeys, rfl, ho⟩ | ⟨key, hkeys, ⟨-, ho⟩ | ⟨r, rfl, ho⟩⟩
    · cases ho
      rw [← hkeys] at hrest
      exact .silent progress command advance hkeys (hrounds hrest)
    · cases ho
    · cases r with
      | error e' => cases ho
      | ok u =>
        cases ho
        refine .reported progress command advance hkeys (hrounds ?_)
        rw [hkeys, List.length_append]
        exact hrest

/-- Every run of the loop consists of rounds. -/
theorem rounds_of_traces {operation : BatchOperation} {tr : List (Event (GenerateAnswer E C))}
    {o : Option (Except (GenerateKeysError E C) (List BatchItem))}
    (hop : operation.Conforms total earlier)
    (h : Fallible.Traces (driveBatch (publicKeys earlier).length operation) tr o) :
    Rounds earlier operation tr o := by
  induction operation generalizing earlier tr o with
  | failed error =>
    obtain ⟨rfl, rfl⟩ := Fallible.traces_throw_iff.mp h
    exact .failed error
  | complete progress result =>
    obtain ⟨rfl, rfl⟩ := Fallible.traces_orThrow_iff.mp h
    exact .complete progress result
  | exchange progress command advance ih =>
    cases command with
    | error error =>
      have hthrow : Trace (A := GenerateAnswer E C) (.pure (.error (protocolError error))) tr o := h
      obtain ⟨rfl, rfl⟩ := Trace.pure_iff.mp hthrow
      exact .refused progress error advance
    | ok command =>
      rw [driveBatch] at h
      rcases Fallible.traces_bind_iff.mp h with
        ⟨rfl, hask⟩ | ⟨e, rfl, hask⟩ | ⟨response, first, rest, rfl, hask, hrest⟩
      · rcases Fallible.traces_request_iff.mp hask with ⟨rfl, -⟩ | ⟨r, -, ho⟩
        · exact .stopped progress command advance
        · cases ho
      · rcases Fallible.traces_request_iff.mp hask with ⟨-, ho⟩ | ⟨r, rfl, ho⟩
        · cases ho
        · cases r with
          | error e' =>
            cases ho
            exact .lost progress command advance e'
          | ok response => cases ho
      · rcases Fallible.traces_request_iff.mp hask with ⟨-, ho⟩ | ⟨r, rfl, ho⟩
        · cases ho
        · cases r with
          | error e' => cases ho
          | ok response' =>
            cases ho
            exact rounds_after (hop response).1 (fun hr => ih response (hop response).2 hr) hrest

def numbered (keys : List PublicKey) : List (Nat × PublicKey) :=
  keys.mapIdx fun index key => (index + 1, key)

/-- The callbacks of a trace, with the count and the key of each. -/
def reports (tr : List (Event (GenerateAnswer E C))) : List (Nat × PublicKey) :=
  tr.filterMap fun
    | ⟨.progress done key, _⟩ => some (done, key)
    | ⟨.exchange _, _⟩ => none

def replies (tr : List (Event (GenerateAnswer E C))) : List Bytes :=
  tr.filterMap fun
    | ⟨.exchange _, .ok response⟩ => some response
    | ⟨.exchange _, .error _⟩ => none
    | ⟨.progress _ _, _⟩ => none

def failure : Event (GenerateAnswer E C) → Option (GenerateKeysError E C)
  | ⟨.exchange _, .error e⟩ => some (.operation (.drive (.transport e)))
  | ⟨.progress _ _, .error e⟩ => some (.callback e)
  | ⟨.exchange _, .ok _⟩ => none
  | ⟨.progress _ _, .ok _⟩ => none

/-- The keys that the operation lists after the responses. -/
def BatchOperation.completed : List BatchItem → BatchOperation → List Bytes → List PublicKey
  | earlier, .exchange _ _ advance, response :: responses =>
    (advance response).completed ((advance response).listed earlier) responses
  | earlier, _, _ => publicKeys earlier

section Equations

variable {tr : List (Event (GenerateAnswer E C))} {operation : BatchOperation}

@[simp] theorem completed_nil : operation.completed earlier [] = publicKeys earlier := by
  cases operation <;> rfl

theorem completed_cons (progress : Option (List BatchItem)) (command : Except Error Bytes)
    (advance : Bytes → BatchOperation) (response : Bytes) (responses : List Bytes) :
    (BatchOperation.exchange progress command advance).completed earlier (response :: responses) =
      (advance response).completed ((advance response).listed earlier) responses := rfl

@[simp] theorem reports_nil : reports ([] : List (Event (GenerateAnswer E C))) = [] := rfl
@[simp] theorem replies_nil : replies ([] : List (Event (GenerateAnswer E C))) = [] := rfl

@[simp] theorem reports_exchange (command : Bytes) (answer : Except E Bytes) :
    reports (⟨.exchange command, answer⟩ :: tr) = reports tr := rfl

@[simp] theorem reports_progress (done : Nat) (key : PublicKey) (answer : Except C Unit) :
    reports (⟨.progress done key, answer⟩ :: tr) = (done, key) :: reports tr := rfl

@[simp] theorem replies_ok (command response : Bytes) :
    replies (⟨.exchange command, .ok response⟩ :: tr) = response :: replies tr := rfl

@[simp] theorem replies_error (command : Bytes) (e : E) :
    replies (⟨.exchange command, .error e⟩ :: tr) = replies tr := rfl

@[simp] theorem replies_progress (done : Nat) (key : PublicKey) (answer : Except C Unit) :
    replies (⟨.progress done key, answer⟩ :: tr) = replies tr := rfl

theorem numbered_concat (keys : List PublicKey) (key : PublicKey) :
    numbered (keys ++ [key]) = numbered keys ++ [(keys.length + 1, key)] := List.mapIdx_concat

end Equations

namespace Rounds

variable {operation : BatchOperation} {tr pre post : List (Event (GenerateAnswer E C))}
  {o : Option (Except (GenerateKeysError E C) (List BatchItem))}

/-- A loop that returned has reported every listed key. -/
theorem ended (h : Rounds earlier operation tr o) (ho : o ≠ none) :
    numbered (publicKeys earlier) ++ reports tr =
      numbered (operation.completed earlier (replies tr)) := by
  induction h with
  | failed => exact List.append_nil _
  | complete => exact List.append_nil _
  | refused => exact List.append_nil _
  | stopped => exact absurd rfl ho
  | lost => exact List.append_nil _
  | silent progress command advance hkeys _ ih =>
    rw [reports_exchange, replies_ok, completed_cons, ← ih ho, hkeys]
  | unreported => exact absurd rfl ho
  | declined progress command advance e hkeys =>
    rw [reports_exchange, reports_progress, replies_ok, replies_progress, completed_cons,
      replies_nil, completed_nil, hkeys, numbered_concat, reports_nil]
  | reported progress command advance hkeys _ ih =>
    rw [reports_exchange, reports_progress, replies_ok, replies_progress, completed_cons, ← ih ho,
      hkeys, numbered_concat, List.append_assoc, List.singleton_append]

/-- Every key that is listed before a command has been reported before it. -/
theorem before_command {command : Bytes} {answer : Except E Bytes}
    (h : Rounds earlier operation tr o) (htr : tr = pre ++ ⟨.exchange command, answer⟩ :: post) :
    numbered (publicKeys earlier) ++ reports pre =
      numbered (operation.completed earlier (replies pre)) := by
  induction h generalizing pre with
  | failed => simp at htr
  | complete => simp at htr
  | refused => simp at htr
  | stopped => simp at htr
  | lost =>
    rcases List.cons_eq_append_iff.mp htr with ⟨rfl, -⟩ | ⟨rest, rfl, hrest⟩
    · simp
    · simp at hrest
  | silent progress command' advance hkeys _ ih =>
    rcases List.cons_eq_append_iff.mp htr with ⟨rfl, -⟩ | ⟨rest, rfl, hrest⟩
    · simp
    · rw [reports_exchange, replies_ok, completed_cons, ← ih hrest, hkeys]
  | unreported =>
    rcases List.cons_eq_append_iff.mp htr with ⟨rfl, -⟩ | ⟨rest, rfl, hrest⟩
    · simp
    · simp at hrest
  | declined progress command' advance e hkeys =>
    rcases List.cons_eq_append_iff.mp htr with ⟨rfl, -⟩ | ⟨rest, rfl, hrest⟩
    · simp
    · rcases List.cons_eq_append_iff.mp hrest with ⟨-, hevent⟩ | ⟨others, rfl, htail⟩
      · cases hevent
      · simp at htail
  | reported progress command' advance hkeys _ ih =>
    rcases List.cons_eq_append_iff.mp htr with ⟨rfl, -⟩ | ⟨rest, rfl, hrest⟩
    · simp
    · rcases List.cons_eq_append_iff.mp hrest with ⟨-, hevent⟩ | ⟨others, rfl, htail⟩
      · cases hevent
      · rw [reports_exchange, reports_progress, replies_ok, replies_progress, completed_cons,
          ← ih htail, hkeys, numbered_concat, List.append_assoc, List.singleton_append]

/-- A callback follows the reply that completed its key at once. -/
theorem after_reply {done : Nat} {key : PublicKey} {answer : Except C Unit}
    (h : Rounds earlier operation tr o) (htr : tr = pre ++ ⟨.progress done key, answer⟩ :: post) :
    ∃ front command response, pre = front ++ [⟨.exchange command, .ok response⟩] ∧
      operation.completed earlier (replies pre) =
        operation.completed earlier (replies front) ++ [key] ∧
      done = (operation.completed earlier (replies pre)).length := by
  induction h generalizing pre with
  | failed => simp at htr
  | complete => simp at htr
  | refused => simp at htr
  | stopped => simp at htr
  | lost =>
    rcases List.cons_eq_append_iff.mp htr with ⟨-, hevent⟩ | ⟨rest, rfl, hrest⟩
    · cases hevent
    · simp at hrest
  | silent progress command advance hkeys _ ih =>
    rcases List.cons_eq_append_iff.mp htr with ⟨-, hevent⟩ | ⟨rest, rfl, hrest⟩
    · cases hevent
    · obtain ⟨front, command', response', rfl, hcompleted, hdone⟩ := ih hrest
      exact ⟨_ :: front, command', response', rfl, hcompleted, hdone⟩
  | unreported =>
    rcases List.cons_eq_append_iff.mp htr with ⟨-, hevent⟩ | ⟨rest, rfl, hrest⟩
    · cases hevent
    · simp at hrest
  | declined progress command advance e hkeys =>
    rcases List.cons_eq_append_iff.mp htr with ⟨-, hevent⟩ | ⟨rest, rfl, hrest⟩
    · cases hevent
    · rcases List.cons_eq_append_iff.mp hrest with ⟨rfl, hevent⟩ | ⟨others, rfl, htail⟩
      · cases hevent
        refine ⟨[], command, _, rfl, ?_, ?_⟩
        all_goals simp [completed_cons, hkeys]
      · simp at htail
  | reported progress command advance hkeys _ ih =>
    rcases List.cons_eq_append_iff.mp htr with ⟨-, hevent⟩ | ⟨rest, rfl, hrest⟩
    · cases hevent
    · rcases List.cons_eq_append_iff.mp hrest with ⟨rfl, hevent⟩ | ⟨others, rfl, htail⟩
      · cases hevent
        refine ⟨[], command, _, rfl, ?_, ?_⟩
        all_goals simp [completed_cons, hkeys]
      · obtain ⟨front, command', response', rfl, hcompleted, hdone⟩ := ih htail
        exact ⟨_ :: _ :: front, command', response', rfl, hcompleted, hdone⟩

/-- Nothing follows a failed exchange or callback but its error. -/
theorem failed_last {event : Event (GenerateAnswer E C)} {e : GenerateKeysError E C}
    (h : Rounds earlier operation tr o) (htr : tr = pre ++ event :: post)
    (hevent : failure event = some e) : post = [] ∧ o = some (.error e) := by
  induction h generalizing pre with
  | failed => simp at htr
  | complete => simp at htr
  | refused => simp at htr
  | stopped => simp at htr
  | lost =>
    rcases List.cons_eq_append_iff.mp htr with ⟨-, hhead⟩ | ⟨rest, rfl, hrest⟩
    · cases hhead
      cases hevent
      exact ⟨rfl, rfl⟩
    · simp at hrest
  | silent progress command advance hkeys _ ih =>
    rcases List.cons_eq_append_iff.mp htr with ⟨-, hhead⟩ | ⟨rest, rfl, hrest⟩
    · cases hhead
      cases hevent
    · exact ih hrest
  | unreported =>
    rcases List.cons_eq_append_iff.mp htr with ⟨-, hhead⟩ | ⟨rest, rfl, hrest⟩
    · cases hhead
      cases hevent
    · simp at hrest
  | declined =>
    rcases List.cons_eq_append_iff.mp htr with ⟨-, hhead⟩ | ⟨rest, rfl, hrest⟩
    · cases hhead
      cases hevent
    · rcases List.cons_eq_append_iff.mp hrest with ⟨-, hhead⟩ | ⟨others, rfl, htail⟩
      · cases hhead
        cases hevent
        exact ⟨rfl, rfl⟩
      · simp at htail
  | reported progress command advance hkeys _ ih =>
    rcases List.cons_eq_append_iff.mp htr with ⟨-, hhead⟩ | ⟨rest, rfl, hrest⟩
    · cases hhead
      cases hevent
    · rcases List.cons_eq_append_iff.mp hrest with ⟨-, hhead⟩ | ⟨others, rfl, htail⟩
      · cases hhead
        cases hevent
      · exact ih htail

/-- A result is the whole batch, and everything listed is part of it. -/
theorem returned (h : Rounds earlier operation tr o) (hop : operation.Conforms total earlier)
    (ho : o = some (.ok items)) :
    WholeBatch total items ∧ operation.completed earlier (replies tr) <+: publicKeys items := by
  induction h with
  | failed => cases ho
  | complete progress result =>
    obtain rfl : result = .ok items := by
      cases result with
      | error e => cases ho
      | ok items' =>
        cases ho
        rfl
    obtain ⟨hwhole, hfront⟩ := hop items rfl
    exact ⟨hwhole, hfront.filterMap _⟩
  | refused => cases ho
  | stopped => cases ho
  | lost => cases ho
  | silent progress command advance hkeys _ ih => exact ih (hop _).2 ho
  | unreported => cases ho
  | declined => cases ho
  | reported progress command advance hkeys _ ih => exact ih (hop _).2 ho

end Rounds

/-- The callbacks of a generation match the keys that the operation lists. -/
structure Reporting {α : Type} (operation : BatchOperation) (tr : List (Event (GenerateAnswer E C)))
    (o : Option (Except (GenerateKeysError E C) α)) : Prop where
  /-- On return, every listed key was reported once, in order and with its count. -/
  ended : o ≠ none → reports tr = numbered (operation.completed [] (replies tr))
  /-- So it was before every command, with the keys listed so far. -/
  before_command {pre post : List (Event (GenerateAnswer E C))} {command : Bytes}
    {answer : Except E Bytes} : tr = pre ++ ⟨.exchange command, answer⟩ :: post →
      reports pre = numbered (operation.completed [] (replies pre))
  /-- A callback follows the reply that completed its key. -/
  after_reply {pre post : List (Event (GenerateAnswer E C))} {done : Nat} {key : PublicKey}
    {answer : Except C Unit} : tr = pre ++ ⟨.progress done key, answer⟩ :: post →
      ∃ front command response, pre = front ++ [⟨.exchange command, .ok response⟩] ∧
        operation.completed [] (replies pre) = operation.completed [] (replies front) ++ [key] ∧
        done = (operation.completed [] (replies pre)).length
  /-- A failed exchange or callback ends the generation with its error. -/
  failed_last {pre post : List (Event (GenerateAnswer E C))} {event : Event (GenerateAnswer E C)}
    {e : GenerateKeysError E C} : tr = pre ++ event :: post → failure event = some e →
      post = [] ∧ o = some (.error e)

/-- Where nothing was sent, nothing had to be reported. -/
theorem Reporting.nil {α : Type} (operation : BatchOperation)
    (o : Option (Except (GenerateKeysError E C) α)) : Reporting operation [] o where
  ended _ := by
    rw [reports_nil, replies_nil, completed_nil]
    rfl
  before_command htr := by simp at htr
  after_reply htr := by simp at htr
  failed_last htr _ := by simp at htr

theorem Rounds.reporting {α : Type} {operation : BatchOperation}
    {tr : List (Event (GenerateAnswer E C))}
    {o : Option (Except (GenerateKeysError E C) (List BatchItem))}
    {o' : Option (Except (GenerateKeysError E C) α)} (h : Rounds [] operation tr o)
    (hnone : o' ≠ none → o ≠ none)
    (herror : ∀ e, o = some (.error e) → o' = some (.error e)) : Reporting operation tr o' where
  ended ho := h.ended (hnone ho)
  before_command htr := h.before_command htr
  after_reply htr := h.after_reply htr
  failed_last htr hevent := (h.failed_last htr hevent).imp_right (herror _)

/-- The keys of a finished batch are the ones it lists. -/
theorem generatedKeys_whole (h : WholeBatch total items) :
    generatedKeys total items = .ok (publicKeys items) := by
  obtain ⟨keys, rfl, rfl⟩ := h
  have hkeys : (batchItems keys).filterMap BatchItem.key = keys := publicKeys_batchItems keys
  rw [generatedKeys, hkeys, publicKeys_batchItems]
  simp

section Generation

variable {batch : List BatchRequest → Except Error BatchOperation} {slots : List KeyParameters}
  {management : ManagementAuthentication} {tr : List (Event (GenerateAnswer E C))}
  {o : Option (Except (GenerateKeysError E C) (List PublicKey))}

/-- The slot check refuses exactly the empty and the repeating lists. -/
theorem validateGenerationSlots_error {slots : List Slot} (h : slots = [] ∨ ¬ slots.Nodup) :
    validateGenerationSlots slots = .error (.new .invalidArgument) := if_pos h

/-- A started generation: the rounds of the loop, and what became of their result. -/
theorem rounds_of_generation {operation : BatchOperation}
    (hop : operation.Conforms slots.length [])
    (h : Fallible.Traces (driveBatch 0 operation >>= fun items =>
      orThrow ((generatedKeys slots.length items).mapError protocolKind)) tr o) :
    ∃ o', Rounds [] operation tr o' ∧ o = o'.map (Except.map publicKeys) := by
  rcases Fallible.traces_bind_iff.mp h with
    ⟨rfl, hloop⟩ | ⟨e, rfl, hloop⟩ | ⟨items, first, rest, rfl, hloop, hrest⟩
  · exact ⟨none, rounds_of_traces hop hloop, rfl⟩
  · exact ⟨some (.error e), rounds_of_traces hop hloop, rfl⟩
  · obtain ⟨rfl, rfl⟩ := Fallible.traces_orThrow_iff.mp hrest
    have hrounds := rounds_of_traces hop hloop
    rw [List.append_nil, generatedKeys_whole (hrounds.returned hop rfl).1]
    exact ⟨some (.ok items), hrounds, rfl⟩

/-- An empty or repeating list of slots sends nothing; every other generation
reports each key once, in order and before the next command, and the keys it
returns begin with the reported ones. -/
theorem generateKeys_reports
    (hbatch : ∀ operation, batch (generationRequests slots management) = .ok operation →
      operation.Conforms slots.length [])
    (h : Fallible.Traces (generateKeysWithProgress batch slots management) tr o) :
    (slots = [] ∨ ¬ (slots.map KeyParameters.slot).Nodup →
      tr = [] ∧ o = some (.error (protocolKind .invalidArgument))) ∧
    (∀ error, batch (generationRequests slots management) = .error error → tr = []) ∧
    ∀ operation, batch (generationRequests slots management) = .ok operation →
      Reporting operation tr o ∧ ∀ keys, o = some (.ok keys) →
        keys.length = slots.length ∧ operation.completed [] (replies tr) <+: keys ∧
        ((operation.completed [] (replies tr)).length = slots.length → reports tr = numbered keys) := by
  rw [generateKeysWithProgress] at h
  rcases Fallible.traces_orThrow_bind_iff.mp h with ⟨e, hrefused, rfl, rfl⟩ | ⟨⟨⟩, hvalid, hrest⟩
  · refine ⟨fun hslots => ⟨rfl, ?_⟩, fun _ _ => rfl, fun operation _ => ⟨?_, ?_⟩⟩
    · rw [validateGenerationSlots_error (by simpa using hslots)] at hrefused
      cases hrefused
      rfl
    · exact .nil operation _
    · intro keys hkeys
      cases hkeys
  · have hslots : ¬ (slots = [] ∨ ¬ (slots.map KeyParameters.slot).Nodup) := by
      intro hslots
      rw [validateGenerationSlots_error (by simpa using hslots)] at hvalid
      cases hvalid
    refine ⟨fun h => absurd h hslots, ?_, ?_⟩
    · intro error herror
      rw [herror] at hrest
      rcases Fallible.traces_orThrow_bind_iff.mp hrest with ⟨e, -, rfl, -⟩ | ⟨op, hop, -⟩
      · rfl
      · cases hop
    · intro operation hoperation
      rw [hoperation] at hrest
      rcases Fallible.traces_orThrow_bind_iff.mp hrest with ⟨e, he, -, -⟩ | ⟨op, hop, hgo⟩
      · cases he
      · cases hop
        have hconforms := hbatch operation hoperation
        obtain ⟨o', hrounds, rfl⟩ := rounds_of_generation hconforms hgo
        have hreporting : Reporting operation tr (o'.map (Except.map publicKeys)) := by
          refine hrounds.reporting ?_ ?_
          · rintro hsome rfl
            exact hsome rfl
          · rintro e rfl
            rfl
        refine ⟨hreporting, ?_⟩
        intro keys hkeys
        rcases o' with _ | ⟨e | items⟩
        · cases hkeys
        · cases hkeys
        · cases hkeys
          obtain ⟨⟨keys, hlength, rfl⟩, hfront⟩ := hrounds.returned hconforms rfl
          rw [publicKeys_batchItems] at hfront ⊢
          refine ⟨hlength, hfront, ?_⟩
          intro hwhole
          rw [← hfront.eq_of_length (by rw [hwhole, hlength])]
          exact hreporting.ended (by simp)

end Generation

/-! A batch with known answers: one external authentication, then a GENERATE for
each slot. -/

namespace Fixture

open Reference (success)

def generateCommand (slot : Slot) : Bytes :=
  [0x00, 0x47, 0x00, slot.reference, 0x05, 0xac, 0x03, 0x80, 0x01, 0x11]

/-- A P-256 point in its 7F49 template. -/
def generateReply (point : Bytes) : Bytes := [0x7f, 0x49, 0x43, 0x86, 0x41] ++ point ++ success

def keyOf (reply : Bytes) : Except Error PublicKey :=
  if reply = generateReply (Reference.part reply 5 65) then .ok ⟨0x11, Reference.part reply 5 65⟩
  else .error (Reference.failure .invalidResponse)

def generating (keys : List PublicKey) : List Slot → BatchOperation
  | [] => .complete (some (batchItems keys)) (.ok (batchItems keys))
  | slot :: slots => .exchange (some (batchItems keys)) (.ok (generateCommand slot)) fun reply =>
    match keyOf reply with
    | .error error => .failed error
    | .ok key => generating (keys ++ [key]) slots

def step (command : Bytes) (next : BatchOperation) : BatchOperation :=
  .exchange (some []) (.ok command) fun reply =>
    if reply = success then next else .failed (Reference.failure .authenticationFailed)

def authenticating (key : ManagementKey) (slots : List Slot) : BatchOperation :=
  .exchange (some []) (.ok (Reference.challengeCommand key.algorithm)) fun reply =>
    match Reference.encrypt Reference.knownAnswers key (Reference.blockOf reply) with
    | none => .failed (Reference.failure .authenticationFailed)
    | some answer => step (Reference.responseCommand key.algorithm answer) (generating [] slots)

def slotOf : BatchRequest → Option Slot
  | .authenticateManagement _ => none
  | .generateKey parameters => some parameters.slot

def batch : List BatchRequest → Except Error BatchOperation
  | .authenticateManagement (.external key) :: requests =>
    .ok (step Reference.selectCommand (authenticating key (requests.filterMap slotOf)))
  | _ => .error (.new .invalidArgument)

theorem partOfBatch_nil (total : Nat) : PartOfBatch total [] :=
  ⟨List.replicate total ⟨0x11, []⟩, List.length_replicate, List.nil_prefix⟩

theorem partOfBatch_of_le {keys : List PublicKey} (h : keys.length ≤ total) :
    PartOfBatch total (batchItems keys) := by
  refine ⟨keys ++ List.replicate (total - keys.length) ⟨0x11, []⟩, ?_, ?_⟩
  · rw [List.length_append, List.length_replicate]
    omega
  · rw [batchItems, batchItems, List.map_append, ← List.cons_append]
    exact List.prefix_append ..

theorem generating_progress (keys : List PublicKey) (slots : List Slot) :
    (generating keys slots).progress = some (batchItems keys) := by
  cases slots <;> rfl

/-- What fails lists nothing. -/
theorem conforms_failed {error : Error} (h : PartOfBatch total earlier) :
    Grows total earlier ((BatchOperation.failed error).listed earlier) ∧
      (BatchOperation.failed error).Conforms total ((BatchOperation.failed error).listed earlier) :=
  ⟨⟨h, List.prefix_refl _, Nat.le_succ _⟩, trivial⟩

theorem generating_conforms (keys : List PublicKey) (slots : List Slot) :
    (generating keys slots).Conforms (keys.length + slots.length) (batchItems keys) := by
  induction slots generalizing keys with
  | nil =>
    rintro items ⟨⟩
    exact ⟨⟨keys, rfl, rfl⟩, List.prefix_refl _⟩
  | cons slot slots ih =>
    intro reply
    cases hkey : keyOf reply with
    | error error =>
      simp only [hkey]
      exact conforms_failed (partOfBatch_of_le (Nat.le_add_right ..))
    | ok key =>
      have hlisted : (generating (keys ++ [key]) slots).listed (batchItems keys) =
          batchItems (keys ++ [key]) := by
        rw [BatchOperation.listed, generating_progress, Option.getD_some]
      have hnext := ih (keys ++ [key])
      rw [List.length_append, List.length_singleton, Nat.add_assoc, Nat.add_comm 1] at hnext
      simp only [hkey, hlisted, List.length_cons]
      refine ⟨⟨partOfBatch_of_le (by simp), ?_, ?_⟩, hnext⟩
      · rw [batchItems, batchItems, List.map_append, ← List.cons_append]
        exact List.prefix_append ..
      · simp [batchItems]

/-- The authentication lists nothing before the first key. -/
theorem step_conforms {command : Bytes} {next : BatchOperation}
    (hgrows : Grows total [] (next.listed [])) (h : next.Conforms total (next.listed [])) :
    (step command next).Conforms total [] := by
  intro reply
  by_cases hreply : reply = success
  · simp only [hreply, if_true]
    exact ⟨hgrows, h⟩
  · simp only [hreply, if_false]
    exact conforms_failed (partOfBatch_nil total)

theorem authenticating_conforms (key : ManagementKey) (slots : List Slot) :
    (authenticating key slots).Conforms slots.length [] := by
  intro reply
  cases hanswer : Reference.encrypt Reference.knownAnswers key (Reference.blockOf reply) with
  | none =>
    simp only [hanswer]
    exact conforms_failed (partOfBatch_nil _)
  | some answer =>
    have hlisted : (generating [] slots).listed [] = batchItems [] := by
      rw [BatchOperation.listed, generating_progress, Option.getD_some]
    have hgenerating := generating_conforms [] slots
    rw [List.length_nil, Nat.zero_add] at hgenerating
    simp only [hanswer]
    refine ⟨⟨partOfBatch_nil _, List.nil_prefix, Nat.le_succ _⟩, step_conforms ?_ ?_⟩
    · rw [hlisted]
      exact ⟨partOfBatch_of_le (Nat.zero_le _), List.nil_prefix, Nat.le_refl 1⟩
    · rw [hlisted]
      exact hgenerating

theorem batch_conforms {slots : List KeyParameters} {management : ManagementAuthentication}
    {operation : BatchOperation} (h : batch (generationRequests slots management) = .ok operation) :
    operation.Conforms slots.length [] := by
  cases management with
  | mutualChallenge key challenge => cases h
  | external key =>
    cases h
    have hslots : (slots.map BatchRequest.generateKey).filterMap slotOf =
        slots.map KeyParameters.slot := by
      rw [List.filterMap_map, ← List.filterMap_eq_map]
      rfl
    have hrest := authenticating_conforms key (slots.map KeyParameters.slot)
    rw [List.length_map] at hrest
    rw [hslots]
    exact step_conforms ⟨partOfBatch_nil _, List.nil_prefix, Nat.le_succ _⟩ hrest

/-- The base point of P-256, and its double. -/
def firstPoint : Bytes :=
  [0x04, 0x6b, 0x17, 0xd1, 0xf2, 0xe1, 0x2c, 0x42, 0x47, 0xf8, 0xbc, 0xe6, 0xe5, 0x63, 0xa4, 0x40,
    0xf2, 0x77, 0x03, 0x7d, 0x81, 0x2d, 0xeb, 0x33, 0xa0, 0xf4, 0xa1, 0x39, 0x45, 0xd8, 0x98, 0xc2,
    0x96, 0x4f, 0xe3, 0x42, 0xe2, 0xfe, 0x1a, 0x7f, 0x9b, 0x8e, 0xe7, 0xeb, 0x4a, 0x7c, 0x0f, 0x9e,
    0x16, 0x2b, 0xce, 0x33, 0x57, 0x6b, 0x31, 0x5e, 0xce, 0xcb, 0xb6, 0x40, 0x68, 0x37, 0xbf, 0x51, 0xf5]

def secondPoint : Bytes :=
  [0x04, 0x7c, 0xf2, 0x7b, 0x18, 0x8d, 0x03, 0x4f, 0x7e, 0x8a, 0x52, 0x38, 0x03, 0x04, 0xb5, 0x1a,
    0xc3, 0xc0, 0x89, 0x69, 0xe2, 0x77, 0xf2, 0x1b, 0x35, 0xa6, 0x0b, 0x48, 0xfc, 0x47, 0x66, 0x99,
    0x78, 0x07, 0x77, 0x55, 0x10, 0xdb, 0x8e, 0xd0, 0x40, 0x29, 0x3d, 0x9a, 0xc6, 0x9f, 0x74, 0x30,
    0xdb, 0xba, 0x7d, 0xad, 0xe6, 0x3c, 0xe9, 0x82, 0x29, 0x9e, 0x04, 0xb7, 0x9d, 0x22, 0x78, 0x73, 0xd1]

def reply (command : Bytes) : Option Bytes :=
  if command = Reference.challengeCommand .aes192 then
    some (Reference.template 0x81 (Reference.cardChallenge .aes192))
  else if command = generateCommand .authentication then some (generateReply firstPoint)
  else if command = generateCommand .signature then some (generateReply secondPoint)
  else some success

/-- The card answers, and the callback for the key `declined` fails. -/
def answers (declined : Nat) : (q : GenerateRequest) → Option (GenerateAnswer Unit String q)
  | .exchange command => (reply command).map .ok
  | .progress done _ => some (if done = declined then .error "disk full" else .ok ())

def twoSlots : List KeyParameters :=
  [⟨.authentication, .eccP256, .default, .default⟩, ⟨.signature, .eccP256, .default, .default⟩]

def management : ManagementAuthentication := .external ⟨.aes192, Reference.exampleKey.val⟩

def generation : Generation Unit String (List PublicKey) :=
  generateKeysWithProgress batch twoSlots management

def operation : BatchOperation :=
  step Reference.selectCommand
    (authenticating ⟨.aes192, Reference.exampleKey.val⟩ [.authentication, .signature])

end Fixture

/-- Two keys are generated, reported and returned. -/
theorem generateKeys_reports_two :
    Reporting Fixture.operation (Fixture.generation.against (Fixture.answers 0)).1
        (Fixture.generation.against (Fixture.answers 0)).2 ∧
      reports (Fixture.generation.against (Fixture.answers 0)).1 =
        [(1, ⟨0x11, Fixture.firstPoint⟩), (2, ⟨0x11, Fixture.secondPoint⟩)] ∧
      (Fixture.generation.against (Fixture.answers 0)).2 =
        some (.ok [⟨0x11, Fixture.firstPoint⟩, ⟨0x11, Fixture.secondPoint⟩]) := by
  have h := generateKeys_reports (fun _ => Fixture.batch_conforms)
    (Trace.against (Fixture.answers 0) Fixture.generation)
  exact ⟨(h.2.2 _ rfl).1, by decide, by decide⟩

/-- No second key is generated when the first one cannot be saved. -/
example : (Fixture.generation.against (Fixture.answers 1)).1.length = 5 ∧
    (Fixture.generation.against (Fixture.answers 1)).2 = some (.error (.callback "disk full")) := by
  decide

section Plain

variable {α β : Type}

/-- The program with a callback that always succeeds. -/
def quiet : Prog (GenerateAnswer E C) α → Prog (Answer E) α
  | .pure a => .pure a
  | .ask (.exchange command) next => .ask (.exchange command) fun response => quiet (next response)
  | .ask (.progress _ _) next => quiet (next (.ok ()))

def quietly (p : Generation E C α) : Fallible (Answer E) (GenerateKeysError E C) α := quiet p

theorem quiet_bind (p : Prog (GenerateAnswer E C) α) (f : α → Prog (GenerateAnswer E C) β) :
    quiet (p >>= f) = quiet p >>= fun a => quiet (f a) := by
  induction p with
  | pure a => rfl
  | ask q next ih =>
    cases q with
    | exchange command =>
      exact congrArg (Prog.ask (A := Answer E) (.exchange command)) (funext fun r => ih r)
    | progress done key => exact ih (.ok ())

theorem quietly_bind (p : Generation E C α) (f : α → Generation E C β) :
    quietly (p >>= f) = quietly p >>= fun a => quietly (f a) := by
  refine (quiet_bind (p : Prog _ _) (ExceptT.bindCont f)).trans ?_
  refine congrArg (Prog.bind (quiet p)) (funext fun r => ?_)
  cases r <;> rfl

/-- What is assumed here: every list is part of a batch, and a result is whole. -/
def BatchOperation.Shaped (total : Nat) : BatchOperation → Prop
  | .failed _ => True
  | .complete progress result => (∀ items, progress = some items → PartOfBatch total items) ∧
    ∀ items, result = .ok items → WholeBatch total items
  | .exchange progress _ advance => (∀ items, progress = some items → PartOfBatch total items) ∧
    ∀ response, (advance response).Shaped total

theorem BatchOperation.Shaped.progress {operation : BatchOperation} (h : operation.Shaped total)
    (hitems : operation.progress = some items) : PartOfBatch total items := by
  cases operation with
  | failed error => cases hitems
  | complete progress result => exact h.1 items hitems
  | exchange progress command advance => exact h.1 items hitems

/-- The plain driver, with the requests of a generation, keeping the public keys. -/
def generateKeysPlainly (batch : List BatchRequest → Except Error BatchOperation)
    (slots : List KeyParameters) (management : ManagementAuthentication) :
    Fallible (Answer E) (GenerateKeysError E C) (List PublicKey) := do
  orThrow ((validateGenerationSlots (slots.map KeyParameters.slot)).mapError protocolError)
  let operation ← orThrow ((batch (generationRequests slots management)).mapError protocolError)
  let items ← mapError (fun e => .operation (.drive e)) (execute operation.erase)
  pure (publicKeys items)

/-- Public keys are reported without a failure of the driver itself. -/
theorem quietly_reportItems (reported : Nat) (keys : List PublicKey) :
    quietly (reportItems reported (keys.map .publicKey) : Generation E C Nat) =
      pure (reported + keys.length) := by
  induction keys generalizing reported with
  | nil => rfl
  | cons key keys ih =>
    rw [List.length_cons, show reported + (keys.length + 1) = reported + 1 + keys.length by omega]
    exact ih (reported + 1)

theorem quietly_reportProgress {operation : BatchOperation} (h : operation.Shaped total)
    (reported : Nat) :
    ∃ n, quietly (reportProgress reported operation.progress : Generation E C Nat) = pure n := by
  cases hprogress : operation.progress with
  | none => exact ⟨reported, rfl⟩
  | some items =>
    rcases (h.progress hprogress).eq_nil_or with rfl | ⟨keys, rfl⟩
    · exact ⟨reported, by rw [reportProgress, List.drop_nil]; rfl⟩
    · refine ⟨reported + (keys.drop reported).length, ?_⟩
      rw [reportProgress, batchItems, List.drop_succ_cons, ← List.map_drop]
      exact quietly_reportItems reported (keys.drop reported)

/-- The loop issues the commands of the plain driver and ends as it does. -/
theorem quietly_driveBatch {operation : BatchOperation} (h : operation.Shaped total)
    (reported : Nat) :
    quietly (driveBatch reported operation : Generation E C (List BatchItem)) =
      mapError (fun e => .operation (.drive e)) (execute operation.erase) := by
  induction operation generalizing reported with
  | failed error => rfl
  | complete progress result => cases result <;> rfl
  | exchange progress command advance ih =>
    cases command with
    | error error => rfl
    | ok command =>
      rw [driveBatch, quietly_bind, BatchOperation.erase, mapError_execute]
      refine congrArg (Prog.ask (A := Answer E) (.exchange command)) (funext fun r => ?_)
      cases r with
      | error e => rfl
      | ok response =>
        obtain ⟨n, hn⟩ := quietly_reportProgress (E := E) (C := C) (h.2 response) reported
        refine Eq.trans (quietly_bind (reportProgress reported (advance response).progress)
          fun reported => driveBatch reported (advance response)) ?_
        rw [hn]
        exact ih response (h.2 response) n

/-- A shaped operation returns whole batches only, so what follows may assume one. -/
theorem execute_erase_congr {α : Type} {operation : BatchOperation} (h : operation.Shaped total)
    {f g : List BatchItem → Fallible (Answer E) (GenerateKeysError E C) α}
    (hfg : ∀ items, WholeBatch total items → f items = g items) :
    (mapError (fun e => .operation (.drive e)) (execute operation.erase) >>= f) =
      (mapError (fun e => .operation (.drive e)) (execute operation.erase) >>= g) := by
  induction operation with
  | failed error => rfl
  | complete progress result =>
    cases result with
    | error error => rfl
    | ok items => exact hfg items (h.2 items rfl)
  | exchange progress command advance ih =>
    cases command with
    | error error => rfl
    | ok command =>
      rw [BatchOperation.erase, mapError_execute]
      refine congrArg (Prog.ask (A := Answer E) (.exchange command)) (funext fun r => ?_)
      cases r with
      | error e => rfl
      | ok response => exact ih response (h.2 response)

/-- With a callback that succeeds, the generation is the plain driver: the same
commands in the same order, and the same keys or the same error after them. -/
theorem generateKeys_plain {batch : List BatchRequest → Except Error BatchOperation}
    {slots : List KeyParameters} {management : ManagementAuthentication}
    (hbatch : ∀ operation, batch (generationRequests slots management) = .ok operation →
      operation.Shaped slots.length) :
    quietly (generateKeysWithProgress batch slots management : Generation E C (List PublicKey)) =
      generateKeysPlainly batch slots management := by
  rw [generateKeysWithProgress, generateKeysPlainly, quietly_bind]
  refine congrArg (_ >>= ·) (funext fun _ => ?_)
  cases hop : batch (generationRequests slots management) with
  | error error => rfl
  | ok operation =>
    have hshaped := hbatch operation hop
    refine Eq.trans (quietly_bind (driveBatch 0 operation) fun items =>
      orThrow ((generatedKeys slots.length items).mapError protocolKind)) ?_
    rw [quietly_driveBatch hshaped]
    refine execute_erase_congr hshaped fun items hitems => ?_
    rw [generatedKeys_whole hitems]
    rfl

/-- An operation that lists its items one by one is shaped. -/
theorem BatchOperation.Conforms.shaped {operation : BatchOperation}
    (h : operation.Conforms total earlier)
    (hp : ∀ items, operation.progress = some items → PartOfBatch total items) :
    operation.Shaped total := by
  induction operation generalizing earlier with
  | failed error => exact trivial
  | complete progress result => exact ⟨hp, fun items hitems => (h items hitems).1⟩
  | exchange progress command advance ih =>
    refine ⟨hp, fun response => ?_⟩
    obtain ⟨hgrows, hnext⟩ := h response
    refine ih response hnext fun items hitems => ?_
    have hpart := hgrows.part
    rwa [BatchOperation.listed, hitems, Option.getD_some] at hpart

theorem Fixture.batch_shaped {slots : List KeyParameters} {management : ManagementAuthentication}
    {operation : BatchOperation}
    (h : Fixture.batch (generationRequests slots management) = .ok operation) :
    operation.Shaped slots.length := by
  refine (Fixture.batch_conforms h).shaped ?_
  cases management with
  | mutualChallenge key challenge => cases h
  | external key =>
    cases h
    rintro items ⟨⟩
    exact Fixture.partOfBatch_nil _

/-- The same card under the plain driver. -/
def Fixture.cardAnswers : (q : Request) → Option (Answer Unit q)
  | .exchange command => (Fixture.reply command).map .ok
  | _ => none

/-- The batch of two keys under both drivers, and what they return. -/
theorem generateKeys_plain_two :
    quietly Fixture.generation =
        generateKeysPlainly (C := String) Fixture.batch Fixture.twoSlots Fixture.management ∧
      ((quietly Fixture.generation).against Fixture.cardAnswers).2 =
        some (.ok [⟨0x11, Fixture.firstPoint⟩, ⟨0x11, Fixture.secondPoint⟩]) := by
  refine ⟨generateKeys_plain fun _ => Fixture.batch_shaped, ?_⟩
  decide

end Plain

end Piv
