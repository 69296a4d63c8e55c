/-
  A database transaction of four steps, each of which may fail, and the texts of its errors.
-/

namespace Mik.Lib

/-- The steps of a transaction at which it can fail. -/
inductive TxnStage where
  | beginTxn
  | openTable
  | access
  | finish
  deriving DecidableEq, Repr

/-- The error of each step. -/
structure TxnTexts where
  beginTxn : String
  openTable : String
  access : String
  finish : String

def TxnTexts.error (texts : TxnTexts) : TxnStage → String
  | .beginTxn => texts.beginTxn
  | .openTable => texts.openTable
  | .access => texts.access
  | .finish => texts.finish

end Mik.Lib
