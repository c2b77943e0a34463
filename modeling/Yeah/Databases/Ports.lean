import Yeah.Databases.Tool
import Yeah.Runs
import Yeah.Text.Uuid

namespace Yeah.Databases

def Engine.fileBased (engine : Engine) : Bool := engine = .sqlite

def Engine.defaultPort : Engine → Int
  | .postgresql => 5432
  | .mysql => 3306
  | .mariadb => 3306
  | .redis => 6379
  | .keydb => 6379
  | .dragonfly => 6379
  | .clickhouse => 8123
  | .mongodb => 27017
  | .sqlite => 0

namespace Ports

open Text Runs

/-- What a row says of the port that its container publishes. -/
structure Row where
  id : Uuid
  serverId : Uuid
  name : String
  engine : Engine
  publicAccess : Bool
  port : Int
  deriving DecidableEq

/-- The body of a request; what is optional is `none` where it is left out. -/
structure CreateBody where
  serverId : Uuid
  name : String
  engine : Option Engine
  publicAccess : Option Bool
  port : Option Int

structure SettingsBody where
  publicAccess : Option Bool
  port : Option Int

structure Next where
  publicAccess : Bool
  port : Int

def validPort (port : Int) : Bool := 1 ≤ port ∧ port ≤ 65535

def noExternalAccess : String := "SQLite is a file, not a server: it has no external access"

/-- The row of a new database: the ports of the other databases are not looked at. -/
def createDatabase (id : Uuid) (body : CreateBody) : Except String Row :=
  let engine := body.engine.getD .postgresql
  if engine.fileBased then
    if body.publicAccess = some true then .error noExternalAccess
    else .ok ⟨id, body.serverId, body.name, engine, body.publicAccess.getD false, 0⟩
  else if body.port.any (fun port => !validPort port) then .error "invalid port"
  else .ok ⟨id, body.serverId, body.name, engine, body.publicAccess.getD false, body.port.getD engine.defaultPort⟩

def settingsNext (current : Row) (body : SettingsBody) : Except String Next :=
  let next : Next := ⟨body.publicAccess.getD current.publicAccess, body.port.getD current.port⟩
  if current.engine.fileBased then if next.publicAccess then .error noExternalAccess else .ok { next with port := 0 }
  else if !validPort next.port then .error "invalid port"
  else .ok next

def Row.publishes (r : Row) (serverId : Uuid) (port : Int) : Prop :=
  r.serverId = serverId ∧ r.publicAccess = true ∧ r.port = port

instance (r : Row) (serverId : Uuid) (port : Int) : Decidable (r.publishes serverId port) :=
  inferInstanceAs (Decidable (_ ∧ _))

/-- The database that a settings request finds on its port; it is told apart from the request's own by its name. -/
def portClash (rows : List Row) (current : Row) (next : Next) : Option Row :=
  if next.publicAccess then
    (rows.filter fun r => r.publishes current.serverId next.port).find? fun r => r.name ≠ current.name
  else none

/-- A settings request: the row as it read it, what it is to become, and whether its port has been looked for. -/
structure Pending where
  current : Row
  next : Next
  checked : Bool

structure State where
  rows : List Row
  pending : List Pending

inductive Action
  | create (id : Uuid) (body : CreateBody)
  | load (id : Uuid) (body : SettingsBody)
  | check (i : Nat)
  | write (i : Nat)
  | delete (id : Uuid)

def Pending.write (p : Pending) (r : Row) : Row :=
  if r.id = p.current.id then { r with publicAccess := p.next.publicAccess, port := p.next.port } else r

/-- One access to the database by one of the requests; a request that is refused does nothing more. -/
def step (s : State) : Action → State
  | .create id body =>
      match createDatabase id body with
      | .error _ => s
      | .ok row => if id ∈ s.rows.map (·.id) then s else { s with rows := s.rows ++ [row] }
  | .load id body =>
      match s.rows.find? fun r => r.id = id with
      | none => s
      | some current =>
          match settingsNext current body with
          | .error _ => s
          | .ok next => { s with pending := s.pending ++ [⟨current, next, false⟩] }
  | .check i =>
      match s.pending[i]? with
      | none => s
      | some p =>
          match portClash s.rows p.current p.next with
          | some _ => { s with pending := s.pending.eraseIdx i }
          | none => { s with pending := s.pending.set i { p with checked := true } }
  | .write i =>
      match s.pending[i]? with
      | none => s
      | some p => if p.checked then ⟨s.rows.map p.write, s.pending.eraseIdx i⟩ else s
  | .delete id => { s with rows := s.rows.filter fun r => r.id ≠ id }

def Unique (s : State) : Prop :=
  ∀ r ∈ s.rows, ∀ t ∈ s.rows, r.id ≠ t.id → r.publicAccess = true → ¬ t.publishes r.serverId r.port

def Free (s : State) (id serverId : Uuid) (port : Int) : Prop :=
  ∀ t ∈ s.rows, t.id ≠ id → ¬ t.publishes serverId port

def Calm (s : State) : Action → Prop
  | .create id body => ∀ row, createDatabase id body = .ok row → id ∉ s.rows.map (·.id) → row.publicAccess = true → Free s id row.serverId row.port
  | .write i =>
      ∀ p, s.pending[i]? = some p → p.checked = true → p.next.publicAccess = true →
        ∀ r ∈ s.rows, r.id = p.current.id → Free s r.id r.serverId p.next.port
  | _ => True

theorem id_createDatabase {id : Uuid} {body : CreateBody} {row : Row}
    (h : createDatabase id body = .ok row) : row.id = id := by
  simp only [createDatabase] at h
  split_ifs at h <;> (obtain rfl := Except.ok.inj h; rfl)

theorem write_id (p : Pending) (r : Row) : (p.write r).id = r.id := by
  rw [Pending.write]
  split_ifs <;> rfl

theorem write_other {p : Pending} {r : Row} (h : r.id ≠ p.current.id) : p.write r = r := if_neg h

/-- A step keeps the ports apart exactly if it takes a free one. -/
theorem unique_step_iff {s : State} (hu : Unique s) (a : Action) : Unique (step s a) ↔ Calm s a := by
  cases a with
  | create id body =>
      rw [step, Calm]
      split
      · next e he => exact iff_of_true hu fun row hrow => by simp [he] at hrow
      · next row hrow =>
          have hrowid := id_createDatabase hrow
          split_ifs with hid
          · exact iff_of_true hu fun _ _ hnew => absurd hid hnew
          · have hne : ∀ t ∈ s.rows, t.id ≠ row.id :=
              fun t ht he => hid (List.mem_map.2 ⟨t, ht, he.trans hrowid⟩)
            constructor
            · intro h row' hrow' _ hpublic t ht _
              obtain rfl := Except.ok.inj (hrow.symm.trans hrow')
              exact h row (by simp) t (by simp [ht]) (hne t ht).symm hpublic
            · intro h r hr t ht hrt hpublic
              simp only [List.mem_append, List.mem_singleton] at hr ht
              rcases hr with hr | rfl <;> rcases ht with ht | rfl
              · exact hu r hr t ht hrt hpublic
              · rintro ⟨hserver, htpublic, hport⟩
                exact h t hrow hid htpublic r hr (hrowid ▸ hne r hr) ⟨hserver.symm, hpublic, hport.symm⟩
              · exact h r hrow hid hpublic t ht (hrowid ▸ hne t ht)
              · exact absurd rfl hrt
  | load id body =>
      rw [step]
      repeat' split
      all_goals exact iff_of_true hu trivial
  | check i =>
      rw [step]
      repeat' split
      all_goals exact iff_of_true hu trivial
  | write i =>
      rw [step, Calm]
      split
      · next hp => exact iff_of_true hu fun p hp' => by simp [hp] at hp'
      · next p hp =>
          split_ifs with hc
          · constructor
            · intro h p' hp' _ hpublic r hr hid t ht hne
              obtain rfl := Option.some.inj (hp.symm.trans hp')
              have hwrite : p.write r = { r with publicAccess := p.next.publicAccess, port := p.next.port } :=
                if_pos hid
              have hfree := h (p.write r) (List.mem_map_of_mem hr) (p.write t) (List.mem_map_of_mem ht)
                (by rw [write_id, write_id]; exact hne.symm) (by rw [hwrite]; exact hpublic)
              rw [hwrite, write_other (hid ▸ hne)] at hfree
              exact hfree
            · intro h r hr t ht hne hpublic
              obtain ⟨r, hr', rfl⟩ := List.mem_map.1 hr
              obtain ⟨t, ht', rfl⟩ := List.mem_map.1 ht
              rw [write_id, write_id] at hne
              by_cases hrid : r.id = p.current.id
              · have hwrite : p.write r = { r with publicAccess := p.next.publicAccess, port := p.next.port } :=
                  if_pos hrid
                rw [hwrite] at hpublic ⊢
                rw [write_other (hrid ▸ hne.symm)]
                exact h p hp hc hpublic r hr' hrid t ht' hne.symm
              · rw [write_other hrid] at hpublic ⊢
                by_cases htid : t.id = p.current.id
                · have hwrite : p.write t = { t with publicAccess := p.next.publicAccess, port := p.next.port } :=
                    if_pos htid
                  rw [hwrite]
                  rintro ⟨hserver, htpublic, hport⟩
                  exact h p hp hc htpublic t ht' htid r hr' hne ⟨hserver.symm, hpublic, hport.symm⟩
                · rw [write_other htid]
                  exact hu r hr' t ht' hne hpublic
          · exact iff_of_true hu fun p' hp' hc' => by
              obtain rfl := Option.some.inj (hp.symm.trans hp')
              exact absurd hc' hc
  | delete id =>
      refine iff_of_true (fun r hr t ht => ?_) trivial
      exact hu r (List.mem_filter.1 hr).1 t (List.mem_filter.1 ht).1

theorem unique_empty : Unique ⟨[], []⟩ := fun _ hr => absurd hr List.not_mem_nil

/-- What the look-up of a settings request leaves: the databases that publish its port have the name of its own. -/
theorem portClash_eq_none_iff (rows : List Row) (current : Row) (next : Next) :
    portClash rows current next = none ↔
      (next.publicAccess = true → ∀ r ∈ rows, r.publishes current.serverId next.port → r.name = current.name) := by
  rw [portClash]
  split_ifs with hpublic
  · simp [hpublic, List.find?_eq_none]
  · simp [hpublic]

end Ports

end Yeah.Databases
