import LedgerCore.Program.Serial
import LedgerCore.Projector.Apply

/-! Consumers that apply events side by side, each in its own database transaction at READ
COMMITTED. An insert waits for another of the same event, and an upsert for another of the same
account. -/
namespace LedgerCore.Projector
open LedgerCore.Program

/-- A message that a consumer takes up, and the accounts that are open by then. -/
structure Delivery where
  envelope : Envelope
  accounts : List UUID

inductive Lock where
  | event (id : UUID)
  | projection (accountID : UUID)
  deriving DecidableEq

def locks : Call → List Lock
  | .recordEvent eventID _ => [.event eventID]
  | .applyBalance _ b => [.projection b.accountID]

structure Patch where
  processedEvents : List (UUID × String)
  balanceProjections : List (UUID × ProjectionRow)

def changes (db db' : ProjectionDB) : Patch where
  processedEvents := db.processedEvents.changes db'.processedEvents
  balanceProjections := db.balanceProjections.changes db'.balanceProjections

def Patch.apply (p : Patch) (db : ProjectionDB) : ProjectionDB where
  processedEvents := db.processedEvents.overlay p.processedEvents
  balanceProjections := db.balanceProjections.overlay p.balanceProjections

def engine : Engine Reply Error Delivery ProjectionDB ProjectionDB Patch Lock Bool where
  program d := d.envelope.decoded.apply
  exec d := exec d.accounts
  start db := db
  commit := .ok
  stored db := db
  rebase _ db := db
  locks := locks
  diff := changes
  patch := Patch.apply

/-- What others can make of the tables while the locks in `L` are held. -/
structure Kept (L : Lock → Prop) (db db' : ProjectionDB) : Prop where
  processedEvents : db.processedEvents.Fixed (fun id => L (.event id)) db'.processedEvents
  balanceProjections :
    db.balanceProjections.Fixed (fun id => L (.projection id)) db'.balanceProjections

theorem exec_applyBalance {accounts : List UUID} {eventID : UUID} {b : EventBalance}
    {db db' : ProjectionDB} {u : Unit} :
    exec accounts (.applyBalance eventID b) db = .ok (u, db') ↔
      ∃ row, balanceWrite accounts eventID b (db.balanceProjections.find? b.accountID) = .ok row ∧
        db' = { db with balanceProjections := db.balanceProjections.put b.accountID row } := by
  constructor
  · intro h
    obtain ⟨db₁, hdb, h⟩ := map_eq_ok.1 h
    cases h
    obtain ⟨row, hrow, rfl⟩ := map_eq_ok.1 (mapError_eq_ok.1 hdb)
    exact ⟨row, hrow, rfl⟩
  · rintro ⟨row, hrow, rfl⟩
    exact map_eq_ok.2 ⟨_, mapError_eq_ok.2 (map_eq_ok.2 ⟨row, hrow, rfl⟩), rfl⟩

theorem engine_isolates : engine.Isolates (fun _ => True) Kept where
  stored_start _ := rfl
  rebase_start _ _ := rfl
  stored_rebase _ _ := rfl
  rebase_rebase _ _ _ := rfl
  rebase_stored _ := rfl
  commit_stored h := (Except.ok.inj h).symm
  refl _ _ := ⟨.refl, .refl⟩
  trans h h' :=
    ⟨h.processedEvents.trans h'.processedEvents, h.balanceProjections.trans h'.balanceProjections⟩
  mono hL h :=
    ⟨h.processedEvents.mono fun _ => hL _, h.balanceProjections.mono fun _ => hL _⟩
  replay {k c db db₁ r db'} _ hkept h := by
    cases c with
    | recordEvent eventID eventType =>
      have hrow : db₁.processedEvents.find? eventID = db.processedEvents.find? eventID :=
        hkept.processedEvents eventID List.mem_cons_self
      cases h
      change Except.ok (recordEvent eventID eventType db₁) = _
      simp only [recordEvent, hrow, engine, changes, Patch.apply, Table.changes_self,
        Table.overlay_nil, Table.overlay_changes_put hrow]
    | applyBalance eventID b =>
      have hrow : db₁.balanceProjections.find? b.accountID =
          db.balanceProjections.find? b.accountID :=
        hkept.balanceProjections b.accountID List.mem_cons_self
      obtain ⟨row, hwrite, rfl⟩ := exec_applyBalance.1 h
      refine exec_applyBalance.2 ⟨row, by rw [← hwrite]; exact congrArg _ hrow, ?_⟩
      simp only [engine, changes, Patch.apply, Table.changes_self, Table.overlay_nil,
        Table.overlay_changes_put hrow]
  keeps {k c L db db₁ r r' db' db₁'} _ hlocks hkept h h' := by
    cases c with
    | recordEvent eventID eventType =>
      have hrow : db₁.processedEvents.find? eventID = db.processedEvents.find? eventID :=
        hkept.processedEvents eventID (hlocks _ List.mem_cons_self)
      cases h
      cases h'
      refine ⟨?_, hkept.balanceProjections⟩
      change (recordEvent eventID eventType db).2.processedEvents.Fixed _
        (recordEvent eventID eventType db₁).2.processedEvents
      rw [recordEvent, recordEvent, hrow]
      exact hkept.processedEvents.put hrow _
    | applyBalance eventID b =>
      have hrow : db₁.balanceProjections.find? b.accountID =
          db.balanceProjections.find? b.accountID :=
        hkept.balanceProjections b.accountID (hlocks _ List.mem_cons_self)
      obtain ⟨row, hwrite, rfl⟩ := exec_applyBalance.1 h
      obtain ⟨row', hwrite', rfl⟩ := exec_applyBalance.1 h'
      have hsame : balanceWrite k.accounts eventID b (db.balanceProjections.find? b.accountID) =
          .ok row' := by
        rw [← hwrite']
        exact congrArg _ hrow.symm
      obtain rfl := Except.ok.inj (hwrite.symm.trans hsame)
      exact ⟨hkept.processedEvents, hkept.balanceProjections.put hrow _⟩
  frame {k c L db r db'} _ hlocks h := by
    cases c with
    | recordEvent eventID eventType =>
      cases h
      exact ⟨Table.fixed_put (K := fun id => L (.event id)) (hlocks _ List.mem_cons_self) _, .refl⟩
    | applyBalance eventID b =>
      obtain ⟨row, -, rfl⟩ := exec_applyBalance.1 h
      exact ⟨.refl,
        Table.fixed_put (K := fun id => L (.projection id)) (hlocks _ List.mem_cons_self) _⟩

end LedgerCore.Projector
