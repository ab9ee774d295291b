import MessageApp.Runs
import MessageApp.Simulation
import MessageApp.KeyedLog
import MessageApp.Interleaving
import MessageApp.Documents
import MessageApp.Firestore
import MessageApp.ChatController
import MessageApp.Network
import MessageApp.Delivery
import MessageApp.CommitOrder
import MessageApp.ConversationOrder
import MessageApp.Preview
import MessageApp.SendAtomicity
import MessageApp.HomeList
import MessageApp.Listeners
import MessageApp.AccountControllers
import MessageApp.OpenChat
import MessageApp.Sessions
import MessageApp.StoreLaws
import MessageApp.Integrity
import MessageApp.PeerName
import MessageApp.SelfContact
import MessageApp.ContactList
import MessageApp.HalfRegistered
import MessageApp.LoginFlow
import MessageApp.Avatar
import MessageApp.AddContact
import MessageApp.ChatInput
import MessageApp.ChatTable
import MessageApp.ProfilePhoto
import MessageApp.Forms
import MessageApp.Authorship
import MessageApp.Directory
import MessageApp.ListedOnce
import MessageApp.AppDelivery
import MessageApp.OrderedDelivery
import MessageApp.AppPostOffice
import MessageApp.MessageHistory
import MessageApp.MirroredChats
