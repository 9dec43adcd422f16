/-
`Position::update_remote_position`: what the other engines report of their
positions in the same instrument.

As everywhere in `Position`, quantities and prices are exact. The members
are those of `Position`, with the two that only this function writes.
-/
import TradingEngine.OE.Position

namespace TradingEngine.OE

-- =================================================================== engines

/-- `EngineID`. -/
abbrev EngineID := UInt8

/-- `c_MIN_ENGINE_ID`. -/
def minEngineID : EngineID := 1

/-- `c_MAX_ENGINE_ID`. -/
def maxEngineID : EngineID := 7

/-- The guard of `update_remote_position`. -/
def IsEngine (source : EngineID) : Prop :=
  source ≥ minEngineID ∧ source ≤ maxEngineID

instance (source : EngineID) : Decidable (IsEngine source) :=
  inferInstanceAs (Decidable (_ ∧ _))

/-- The indices of `m_remote_positions`, of `c_MAX_ENGINE_ID + 1` places. -/
abbrev RemoteIndex := Fin 8

/-- The place of an engine. -/
def IsEngine.index {source : EngineID} (h : IsEngine source) : RemoteIndex :=
  ⟨source.toNat, Nat.lt_succ_of_le (UInt8.le_iff_toNat_le.mp h.2)⟩

/-- What the loops from `c_MIN_ENGINE_ID` to `c_MAX_ENGINE_ID` go over. -/
def engineIndices : List RemoteIndex := [1, 2, 3, 4, 5, 6, 7]

-- ================================================================= positions

/-- `Position::RemotePosition`. -/
structure RemotePosition where
  tradingQuantity : Int := 0
  vwap : Rat := 0
  /-- The constructor does not set it. -/
  mark : Option Rat := none
  locatesRemaining : Int := 0
  locatesUsed : Int := 0
  deriving DecidableEq

/-- A `Position` with what it keeps of the other engines. -/
structure SharedPosition extends Position where
  remoteVwap : Rat
  remotePositions : RemoteIndex → RemotePosition

/-- The arguments of a call. -/
structure RemoteUpdate where
  source : EngineID
  qty : Int
  avgPx : Rat
  markPx : Rat
  locatesRemaining : Int
  locatesUsed : Int
  deriving DecidableEq

namespace SharedPosition

/-- `Position::Position`. -/
def create (startq : Int) (adjClose : Rat) : SharedPosition where
  toPosition := Position.create startq adjClose
  remoteVwap := 0
  remotePositions := fun _ => {}

/-- `calc_remote_quantity`. -/
def calcRemoteQuantity (pos : SharedPosition) : Int :=
  engineIndices.foldl
    (fun ret i => ret + (pos.remotePositions i).tradingQuantity) 0

/-- `calc_remote_vwap`. -/
def calcRemoteVwap (pos : SharedPosition) : Rat :=
  engineIndices.foldl (fun ret i =>
    ret + (pos.remotePositions i).tradingQuantity
      * (pos.remotePositions i).vwap) 0

/-- `update_remote_position`. -/
def updateRemotePosition (pos : SharedPosition) (u : RemoteUpdate) :
    SharedPosition :=
  if h : IsEngine u.source then
    let rempos := pos.remotePositions h.index
    -- `auto oldq = rempos.trading_quantity = qty`: assigned before it is
    -- read
    let rempos := { rempos with tradingQuantity := u.qty }
    let oldq := rempos.tradingQuantity
    let rempos :=
      { rempos with
        vwap := u.avgPx
        mark := some u.markPx
        locatesRemaining := u.locatesRemaining
        locatesUsed := u.locatesUsed }
    let pos :=
      { pos with
        remotePositions :=
          Function.update pos.remotePositions h.index rempos
        remoteTradingQuantity := pos.remoteTradingQuantity + (u.qty - oldq) }
    { pos with remoteVwap := pos.calcRemoteVwap }
  else pos

end SharedPosition

end TradingEngine.OE
