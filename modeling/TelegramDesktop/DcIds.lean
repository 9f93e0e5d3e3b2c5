import TelegramDesktop.ByteStrings

/-!
# Ids of data centers

The ids of the data centers, which a shift of `mtproto/core_types.h` turns into
ids of sessions.
-/

namespace TelegramDesktop

abbrev DcId := Int32

def kDcShift : Int32 := 10000

def bareDcId (shiftedDcId : Int32) : DcId := shiftedDcId % kDcShift

def shiftDcId (dcId : DcId) (value : Int32) : Int32 := dcId + kDcShift * value

def getDcIdShift (shiftedDcId : Int32) : Int32 := shiftedDcId / kDcShift

@[simp] theorem bareDcId_zero : bareDcId 0 = 0 := rfl

def kTemporaryMainDc : DcId := 1000

/-- Whether the data center is not one of those that the program keeps. -/
def isTemporaryDcId (shiftedDcId : Int32) : Bool := kTemporaryMainDc ≤ bareDcId shiftedDcId

end TelegramDesktop
