import Trusty.Storage.SuperRecovery
import Trusty.Storage.RpmbSize
import Trusty.Ipc.MessageSafety
import Trusty.Ipc.MsgHistory
import Trusty.Ipc.Publish
import Trusty.Virtio.BufferReturn
import Trusty.Virtio.BusLifecycle
import Trusty.Log.MemlogContents
import Trusty.Keymaster.Responses
import Trusty.Keymaster.AttestationPairing
import Trusty.Keymaster.AuthTokenKey
import Trusty.Keymaster.Gate
import Trusty.Hwkey.Binding
import Trusty.Kmsetkey.KeyboxSafety
import Trusty.Kmsetkey.Provision
import Trusty.Kmsetkey.UploadProtocol
import Trusty.Storage.BlockSetRuns
import Trusty.Storage.BlockSetOverlap
import Trusty.Storage.BringUp
import Trusty.Ipc.HandleListFair
import Trusty.Ipc.SendBlocked
import Trusty.Storage.ClientFiles
import Trusty.Kernel.ChanServices
import Trusty.Gatekeeper.Ipc
import Trusty.Storage.NodeEditing
import Trusty.Kernel.AppOptions
import Trusty.Hwkey.Rfc5869
import Trusty.Gatekeeper.FailureRecords
import Trusty.Keymaster.KeyUpgrade
